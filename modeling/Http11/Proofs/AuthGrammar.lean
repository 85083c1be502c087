import Http11.Proofs.AuthParams

/-! Lists of authentication parameters are read exactly as their grammar generates them. -/

namespace Http11

/-- A written value is read, and what stops it is left. -/
theorem readValue_of {shown value rest : Str} (written : IsParamValue shown value)
    (stops : Stops isValueChar rest) : readValue (shown ++ rest) = some (value, rest) := by
  cases written with
  | token token =>
    obtain ⟨filled, tchars⟩ := (isToken_iff _).mp token
    have all : ∀ char ∈ shown, isValueChar char = true := fun char inside =>
      (isTchar_plain (tchars char inside)).2.1
    obtain ⟨char, others, rfl⟩ := List.exists_cons_of_ne_nil filled
    -- The first character is none of a quoted string.
    have plain := (isTchar_plain (tchars char List.mem_cons_self)).2.2.2.2
    have taken := stops.takeWhile all
    have left := stops.dropWhile all
    rw [List.cons_append] at taken left ⊢
    rw [readValue, if_neg plain]
    simp only [taken, left, token, if_true]
  | @quoted text _ quoted =>
    have read := (readQuoted_iff (text ++ ['"'] ++ rest) _ (text ++ ['"']) rest).mpr
      ⟨text, quoted, rfl, rfl⟩
    rw [List.cons_append, readValue, if_pos rfl, read]
    rfl

/-- What is read as a value was written as one. -/
theorem IsParamValue.of_read {back value rest : Str} (read : readValue back = some (value, rest)) :
    ∃ shown, IsParamValue shown value ∧ back = shown ++ rest := by
  cases back with
  | nil => cases read
  | cons char others =>
    rw [readValue] at read
    -- A quotation mark opens a quoted string, and anything else is a token.
    by_cases quote : char = '"'
    · rw [if_pos quote, Option.map_eq_some_iff] at read
      obtain ⟨⟨found, part, left⟩, inner, same⟩ := read
      cases same
      obtain ⟨text, quoted, rfl, rfl⟩ := (readQuoted_iff _ _ _ _).mp inner
      exact ⟨'"' :: (text ++ ['"']), .quoted quoted, by rw [quote]; rfl⟩
    · rw [if_neg quote] at read
      dsimp only at read
      by_cases token : isToken ((char :: others).takeWhile isValueChar) = true
      · rw [if_pos token] at read
        cases read
        -- The token ends where its characters do.
        exact ⟨_, .token token, List.takeWhile_append_dropWhile.symm⟩
      · rw [if_neg token] at read
        cases read

/-- Nothing that is written as a value begins with white space. -/
theorem IsParamValue.stops {shown value : Str} (written : IsParamValue shown value) (rest : Str) :
    Stops isOws (shown ++ rest) := by
  cases written with
  | token token =>
    obtain ⟨filled, tchars⟩ := (isToken_iff _).mp token
    obtain ⟨char, others, rfl⟩ := List.exists_cons_of_ne_nil filled
    exact stops_cons (isTchar_plain (tchars char List.mem_cons_self)).1
  | quoted quoted => exact stops_cons (by decide)

/-- A token begins with a character that is no white space and no comma. -/
theorem token_begins {name : Str} (token : isToken name = true) :
    ∃ char others, name = char :: others ∧ isOws char = false ∧ char ≠ ',' := by
  obtain ⟨filled, tchars⟩ := (isToken_iff _).mp token
  obtain ⟨char, others, rfl⟩ := List.exists_cons_of_ne_nil filled
  have plain := isTchar_plain (tchars char List.mem_cons_self)
  exact ⟨char, others, rfl, plain.1, plain.2.2.1⟩

/-- A written parameter begins as its name does. -/
theorem IsAuthParam.begins {text name value : Str} (param : IsAuthParam text name value) :
    ∃ char others, text = char :: others ∧ isOws char = false ∧ char ≠ ',' := by
  obtain ⟨char, others, rfl, plain⟩ := token_begins param.token
  obtain ⟨left, right, shown, _, _, _, rfl⟩ := param.written
  exact ⟨char, _, rfl, plain⟩

/-- White space in front of an equals sign stops the characters of tokens. -/
theorem stops_tchar {left rest : Str} (ows : IsOwsText left) :
    Stops isTchar (left ++ '=' :: rest) := by
  cases left with
  | nil =>
    refine stops_cons ?_
    decide
  | cons char others =>
    refine stops_cons ?_
    -- White space is no character of a token.
    by_contra same
    have plain := (isTchar_plain (by simpa using same)).1
    rw [ows char List.mem_cons_self] at plain
    cases plain

/-- A written parameter is read, and what stops its value is left. -/
theorem readParam_of {text name value rest : Str} (param : IsAuthParam text name value)
    (stops : Stops isValueChar rest) : readParam (text ++ rest) = some ((name, value), rest) := by
  obtain ⟨filled, tchars⟩ := (isToken_iff _).mp param.token
  obtain ⟨left, right, shown, before, behind, written, rfl⟩ := param.written
  have shape : name ++ left ++ '=' :: (right ++ shown) ++ rest =
      name ++ (left ++ '=' :: (right ++ (shown ++ rest))) := by simp
  -- The name ends at the sign or at the white space in front of it.
  have ends : Stops isTchar (left ++ '=' :: (right ++ (shown ++ rest))) := stops_tchar before
  have sign : Stops isOws ('=' :: (right ++ (shown ++ rest))) := stops_cons (by decide)
  unfold readParam
  rw [shape, ends.takeWhile tchars, ends.dropWhile tchars, sign.dropWhile before]
  dsimp only
  -- The value is read as it was written, since it stops where the rest begins.
  rw [if_neg (by simpa using filled)]
  simp only [(written.stops rest).dropWhile behind, readValue_of written stops, Option.map_some]

/-- What is read as a parameter was written as one. -/
theorem IsAuthParam.of_read {back name value rest : Str}
    (read : readParam back = some ((name, value), rest)) :
    ∃ text, IsAuthParam text name value ∧ back = text ++ rest := by
  unfold readParam at read
  dsimp only at read
  by_cases empty : (back.takeWhile isTchar).isEmpty = true
  · rw [if_pos empty] at read
    cases read
  rw [if_neg empty] at read
  split at read
  · rename_i others equals
    rw [Option.map_eq_some_iff] at read
    obtain ⟨⟨found, left⟩, inner, same⟩ := read
    rw [Prod.mk.injEq, Prod.mk.injEq] at same
    obtain ⟨⟨rfl, rfl⟩, rfl⟩ := same
    obtain ⟨shown, written, behind⟩ := IsParamValue.of_read inner
    -- The parts that were skipped and read make up the text.
    refine ⟨back.takeWhile isTchar ++ (back.dropWhile isTchar).takeWhile isOws ++
      '=' :: (others.takeWhile isOws ++ shown), ⟨?_, _, _, shown, ?_, ?_, written, rfl⟩, ?_⟩
    · exact (isToken_iff _).mpr
        ⟨by simpa using empty, fun char inside => List.mem_takeWhile_imp inside⟩
    · exact fun char inside => List.mem_takeWhile_imp inside
    · exact fun char inside => List.mem_takeWhile_imp inside
    · have second : others = others.takeWhile isOws ++ (shown ++ left) := by
        rw [← behind, List.takeWhile_append_dropWhile]
      have first : back.dropWhile isTchar =
          (back.dropWhile isTchar).takeWhile isOws ++ '=' :: others := by
        rw [← equals, List.takeWhile_append_dropWhile]
      calc back = back.takeWhile isTchar ++ back.dropWhile isTchar :=
            List.takeWhile_append_dropWhile.symm
        _ = back.takeWhile isTchar ++ ((back.dropWhile isTchar).takeWhile isOws ++
            '=' :: (others.takeWhile isOws ++ (shown ++ left))) := by rw [← second, ← first]
        _ = _ := by simp
  · cases read

/-- White space begins neither a value nor a parameter behind it. -/
theorem stops_value {after rest : Str} (ows : IsOwsText after)
    (ends : rest = [] ∨ ∃ left, rest = ',' :: left) : Stops isValueChar (after ++ rest) := by
  cases after with
  | nil =>
    -- Without white space the rest begins with a comma, or there is none.
    rcases ends with rfl | separated
    · rfl
    · obtain ⟨left, rfl⟩ := separated
      exact stops_cons (by decide)
  | cons char others => exact stops_cons (by simp [isValueChar, ows char List.mem_cons_self])

/-- An element that is not empty, read in front of what stands behind its list. -/
theorem read_of_element {before text after name value rest : Str} (front : IsOwsText before)
    (back : IsOwsText after) (param : IsAuthParam text name value)
    (ends : rest = [] ∨ ∃ left, rest = ',' :: left) :
    (before ++ text ++ after ++ rest).dropWhile isOws = text ++ (after ++ rest) ∧
      readParam (text ++ (after ++ rest)) = some ((name, value), after ++ rest) := by
  constructor
  · obtain ⟨char, others, rfl, dark, _⟩ := param.begins
    have stops : Stops isOws (char :: others ++ (after ++ rest)) := stops_cons dark
    rw [List.append_assoc, List.append_assoc]
    exact stops.dropWhile front
  · exact readParam_of param (stops_value back ends)

/-- Where only white space stands there are no parameters. -/
theorem isParamList_done {text : Str} (done : text.dropWhile isOws = []) (params : AuthParams) :
    IsParamList text params ↔ params = [] := by
  have ows : IsOwsText text := List.dropWhile_eq_nil_iff.mp done
  constructor
  · intro list
    cases list with
    | last element =>
      cases element with
      | empty => rfl
      | param front back param =>
        -- A name would have to be white space.
        have shown := (read_of_element front back param (Or.inl rfl)).1
        rw [List.append_nil, done] at shown
        obtain ⟨char, others, rfl, _⟩ := param.begins
        cases shown
    | more element others =>
      have comma := ows ',' (by simp)
      exact absurd comma (by decide)
  · intro none
    rw [none]
    exact .last (.empty ows)

/-- In front of a comma that follows white space the grammar only has an empty element. -/
theorem isParamList_comma {text left : Str} (comma : text.dropWhile isOws = ',' :: left)
    (params : AuthParams) : IsParamList text params ↔ IsParamList left params := by
  constructor
  · intro list
    cases list with
    | last element =>
      cases element with
      | empty ows =>
        rw [List.dropWhile_eq_nil_iff.mpr ows] at comma
        cases comma
      | param front back param =>
        have shown := (read_of_element front back param (Or.inl rfl)).1
        rw [List.append_nil, comma] at shown
        -- A name does not begin with a comma.
        obtain ⟨char, others, rfl, _, other⟩ := param.begins
        exact absurd (List.cons.inj shown).1.symm other
    | @more _ rest _ _ element others =>
      cases element with
      | empty ows =>
        have stops : Stops isOws (',' :: rest) := stops_cons (by decide)
        rw [stops.dropWhile ows] at comma
        cases comma
        exact others
      | param front back param =>
        have shown := (read_of_element front back param (Or.inr ⟨rest, rfl⟩)).1
        rw [comma] at shown
        obtain ⟨char, others, rfl, _, other⟩ := param.begins
        exact absurd (List.cons.inj shown).1.symm other
  · intro list
    have parts : text.takeWhile isOws ++ ',' :: left = text := by
      rw [← comma, List.takeWhile_append_dropWhile]
    have ows : IsOwsText (text.takeWhile isOws) := fun char inside => List.mem_takeWhile_imp inside
    rw [← parts]
    exact .more (.empty ows) list

/-- A separated element is left behind its comma. -/
theorem behindElement_comma {after : Str} (ows : IsOwsText after) (left : Str) :
    behindElement (after ++ ',' :: left) = some left := by
  have stops : Stops isOws (',' :: left) := stops_cons (by decide)
  rw [behindElement, stops.dropWhile ows]
  exact if_pos rfl

/-- A last element leaves nothing. -/
theorem behindElement_last {after : Str} (ows : IsOwsText after) :
    behindElement after = some [] := by
  rw [behindElement, List.dropWhile_eq_nil_iff.mpr ows]

/-- Elsewhere the grammar has a parameter, and more behind it. -/
theorem isParamList_param {text : Str} (present : text.dropWhile isOws ≠ [])
    (filled : ∀ left, text.dropWhile isOws ≠ ',' :: left) (params : AuthParams) :
    IsParamList text params ↔ ∃ name value rest left others,
      readParam (text.dropWhile isOws) = some ((name, value), rest) ∧
        behindElement rest = some left ∧ IsParamList left others ∧
          params = (name, value) :: others := by
  constructor
  · intro list
    cases list with
    | last element =>
      cases element with
      | empty ows => exact absurd (List.dropWhile_eq_nil_iff.mpr ows) present
      | @param before core after name value front back param =>
        obtain ⟨shown, read⟩ := read_of_element front back param (Or.inl rfl)
        rw [List.append_nil] at shown
        rw [shown, read, List.append_nil]
        exact ⟨name, value, after, [], [], rfl, behindElement_last back,
          (isParamList_done rfl []).mpr rfl, rfl⟩
    | @more first left params rest element others =>
      cases element with
      | empty ows =>
        have stops : Stops isOws (',' :: left) := stops_cons (by decide)
        exact absurd (stops.dropWhile ows) (filled left)
      | @param before core after name value front back param =>
        obtain ⟨shown, read⟩ := read_of_element front back param (Or.inr ⟨left, rfl⟩)
        rw [shown, read]
        exact ⟨name, value, _, left, rest, rfl, behindElement_comma back left, others, rfl⟩
  · intro found
    obtain ⟨name, value, rest, left, others, read, behind, list, rfl⟩ := found
    obtain ⟨core, param, shown⟩ := IsAuthParam.of_read read
    have front : IsOwsText (text.takeWhile isOws) := fun char inside =>
      List.mem_takeWhile_imp inside
    have whole : text = text.takeWhile isOws ++ core ++ rest := by
      rw [List.append_assoc, ← shown, List.takeWhile_append_dropWhile]
    rw [behindElement] at behind
    cases gap : rest.dropWhile isOws with
    | nil =>
      -- The parameter is the last element.
      rw [gap] at behind
      cases behind
      rw [(isParamList_done rfl others).mp list, whole]
      exact .last (.param front (List.dropWhile_eq_nil_iff.mp gap) param)
    | cons char after =>
      rw [gap] at behind
      dsimp only at behind
      by_cases separated : char = ','
      · rw [if_pos separated] at behind
        cases behind
        have parts : rest = rest.takeWhile isOws ++ ',' :: left := by
          rw [← separated, ← gap, List.takeWhile_append_dropWhile]
        have back : IsOwsText (rest.takeWhile isOws) := fun char inside =>
          List.mem_takeWhile_imp inside
        rw [whole, parts, ← List.append_assoc]
        exact .more (.param front back param) list
      · rw [if_neg separated] at behind
        cases behind

/-- Parameters that are allowed together. -/
structure Together (params : AuthParams) : Prop where
  /-- There are not too many of them. -/
  few : params.length ≤ 32
  /-- No two of them have the same name. -/
  distinct : (params.map Prod.fst).Nodup

/-- Parameters that are allowed together are so without the last ones. -/
theorem Together.front {front back : AuthParams} (together : Together (front ++ back)) :
    Together front where
  few := by
    have few := together.few
    rw [List.length_append] at few
    omega
  distinct := by
    have distinct := together.distinct
    rw [List.map_append] at distinct
    exact (List.nodup_append.mp distinct).1

/-- A parameter is added where it is allowed together with those before it. -/
theorem addParam_iff {params : AuthParams} (together : Together params) (name value : Str)
    (more : AuthParams) : addParam params name value = .ok more ↔
      Together (params ++ lowered [(name, value)]) ∧ more = params ++ lowered [(name, value)] := by
  have added : lowered [(name, value)] = [(toAsciiLowercase name, value)] := rfl
  rw [added, addParam]
  by_cases known : (params.any fun param => param.1 == toAsciiLowercase name) = true
  · -- A name that is there already would be there twice.
    rw [if_pos known]
    constructor
    · intro refused
      cases refused
    · intro allowed
      have distinct := allowed.1.distinct
      rw [List.map_append, List.nodup_append] at distinct
      obtain ⟨param, inside, same⟩ := List.any_eq_true.mp known
      rw [beq_iff_eq] at same
      exact absurd same (distinct.2.2 _ (List.mem_map_of_mem inside) _ (by simp))
  · rw [if_neg known]
    by_cases full : maxAuthParams ≤ params.length
    · rw [if_pos full]
      constructor
      · intro refused
        cases refused
      · intro allowed
        have few := allowed.1.few
        rw [List.length_append, List.length_singleton] at few
        simp only [maxAuthParams] at full
        omega
    · rw [if_neg full, Except.ok.injEq]
      refine ⟨fun same => ⟨⟨?_, ?_⟩, same.symm⟩, fun allowed => allowed.2.symm⟩
      · rw [List.length_append, List.length_singleton]
        simp only [maxAuthParams] at full
        omega
      · rw [List.map_append, List.nodup_append]
        refine ⟨together.distinct, List.pairwise_singleton _ _, ?_⟩
        intro key inside other added same
        obtain ⟨param, member, rfl⟩ := List.mem_map.mp inside
        rw [List.map_singleton, List.mem_singleton] at added
        refine known (List.any_eq_true.mpr ⟨param, member, ?_⟩)
        rw [same, added, beq_self_eq_true]

/-- A result that the rest of a list completes parameters to. -/
def Completes (back : Str) (params result : AuthParams) : Prop :=
  ∃ new, IsParamList back new ∧ params ++ lowered new ≠ [] ∧
    Together (params ++ lowered new) ∧ result = params ++ lowered new

/-- With nothing left the parameters are complete, if there are some. -/
theorem completes_done {back : Str} {params : AuthParams} (together : Together params)
    (done : back.dropWhile isOws = []) (result : AuthParams) :
    finishParams params = .ok result ↔ Completes back params result := by
  rw [finishParams, Completes]
  simp only [isParamList_done done, exists_eq_left, lowered, List.map_nil, List.append_nil]
  -- A list without parameters is refused.
  cases params with
  | nil => simp
  | cons param others =>
    rw [if_neg (by simp), Except.ok.injEq]
    exact ⟨fun same => ⟨by simp, together, same.symm⟩, fun allowed => allowed.2.2.symm⟩

/-- A failure is right where nothing completes the parameters. -/
theorem refused_iff {back : Str} {params : AuthParams} (error : AuthError)
    (none : ∀ result, ¬ Completes back params result) (result : AuthParams) :
    (.error error : Except AuthError AuthParams) = .ok result ↔ Completes back params result := by
  constructor
  · intro refused
    cases refused
  · intro completes
    exact absurd completes (none result)

/-- What one pass over the list does to the results that it can still have. -/
theorem parseAuthParamsPass_completes {input back : Str} {i : Nat} {params : AuthParams}
    (here : At input i back) (together : Together params) :
    match parseAuthParamsPass input i params with
    | .inl (next, more) => Together more ∧ ∃ left, At input next left ∧
        ∀ result, Completes left more result ↔ Completes back params result
    | .inr outcome => ∃ parsed, outcome = some parsed ∧
        ∀ result, parsed = .ok result ↔ Completes back params result := by
  -- Nothing is left, an empty element, or a parameter.
  by_cases done : back.dropWhile isOws = []
  · rw [parseAuthParamsPass_done here done]
    exact ⟨_, rfl, completes_done together done⟩
  by_cases comma : ∃ left, back.dropWhile isOws = ',' :: left
  · obtain ⟨left, comma⟩ := comma
    obtain ⟨next, passed, there⟩ := parseAuthParamsPass_empty params here comma
    rw [passed]
    refine ⟨together, left, there, fun result => ?_⟩
    simp only [Completes, isParamList_comma comma]
  have filled : ∀ left, back.dropWhile isOws ≠ ',' :: left := fun left same => comma ⟨left, same⟩
  have passed := parseAuthParamsPass_param params here done filled
  have generates := isParamList_param done filled
  -- Every failure of the reader is one of the grammar or of what is allowed together.
  cases read : readParam (back.dropWhile isOws) with
  -- What the reader refuses is no parameter.
  | none =>
    rw [read] at passed
    dsimp only at passed
    rw [passed]
    refine ⟨_, rfl, refused_iff _ fun result completes => ?_⟩
    obtain ⟨new, list, _⟩ := completes
    obtain ⟨_, _, _, _, _, found, _⟩ := (generates new).mp list
    rw [read] at found
    cases found
  | some param =>
    obtain ⟨⟨name, value⟩, rest⟩ := param
    rw [read] at passed
    dsimp only at passed
    have one : ∀ others, lowered ((name, value) :: others) =
        lowered [(name, value)] ++ lowered others := fun _ => rfl
    cases added : addParam params name value with
    -- A name that was seen, or one parameter too many.
    | error error =>
      rw [added] at passed
      dsimp only at passed
      rw [passed]
      refine ⟨_, rfl, refused_iff _ fun result completes => ?_⟩
      obtain ⟨new, list, _, allowed, _⟩ := completes
      obtain ⟨_, _, _, _, others, found, _, _, rfl⟩ := (generates new).mp list
      rw [read] at found
      cases found
      rw [one, ← List.append_assoc] at allowed
      have taken := (addParam_iff together name value _).mpr ⟨allowed.front, rfl⟩
      rw [added] at taken
      cases taken
    | ok more =>
      obtain ⟨allowed, rfl⟩ := (addParam_iff together name value more).mp added
      rw [added] at passed
      dsimp only at passed
      cases behind : behindElement rest with
      -- Behind a parameter there is neither a comma nor the end.
      | none =>
        rw [behind] at passed
        dsimp only at passed
        rw [passed]
        refine ⟨_, rfl, refused_iff _ fun result completes => ?_⟩
        obtain ⟨new, list, _⟩ := completes
        obtain ⟨_, _, _, _, _, found, separated, _⟩ := (generates new).mp list
        rw [read] at found
        cases found
        rw [behind] at separated
        cases separated
      | some left =>
        rw [behind] at passed
        obtain ⟨next, passed, there⟩ := passed
        rw [passed]
        refine ⟨allowed, left, there, fun result => ?_⟩
        simp only [Completes, List.append_assoc]
        -- The list behind the comma completes what was read with this parameter in front.
        constructor
        · intro completes
          obtain ⟨others, list, kept⟩ := completes
          exact ⟨(name, value) :: others,
            (generates _).mpr ⟨_, _, _, _, _, read, behind, list, rfl⟩, kept⟩
        · intro completes
          obtain ⟨new, list, kept⟩ := completes
          obtain ⟨_, _, _, _, others, found, separated, list, rfl⟩ := (generates new).mp list
          rw [read] at found
          cases found
          rw [behind] at separated
          cases separated
          exact ⟨others, list, kept⟩

/-- The loop from a position has the results that the rest of the list completes. -/
theorem parseAuthParamsLoop_completes {input back : Str} {i : Nat} {params : AuthParams}
    (here : At input i back) (together : Together params) :
    ∃ parsed, (parseAuthParamsLoop input).run (i, params) = some parsed ∧
      ∀ result, parsed = .ok result ↔ Completes back params result := by
  have all := (parseAuthParamsLoop input).run_rule
    -- By the rule of the loop, for whatever is left and whatever was read.
    (motive := fun state outcome => ∀ back, At input state.1 back → Together state.2 →
      ∃ parsed, outcome = some parsed ∧
        ∀ result, parsed = .ok result ↔ Completes back state.2 result)
    (fun state outcome passed back here together => by
      have kept := parseAuthParamsPass_completes here together
      rw [show parseAuthParamsPass input state.1 state.2 = .inr outcome from passed] at kept
      exact kept)
    (fun state next outcome passed rest back here together => by
      -- A pass that goes on completes what the rest completes.
      have kept := parseAuthParamsPass_completes here together
      rw [show parseAuthParamsPass input state.1 state.2 = .inl next from passed] at kept
      obtain ⟨more, left, there, same⟩ := kept
      obtain ⟨parsed, found, completes⟩ := rest left there more
      exact ⟨parsed, found, fun result => (completes result).trans (same result)⟩)
    (i, params)
  exact all back here together

/-- A whole list has the results that it completes nothing to. -/
theorem parseAuthParams_completes (input : Str) : ∃ parsed, parseAuthParams input = some parsed ∧
    ∀ result, parsed = .ok result ↔ Completes input [] result :=
  parseAuthParamsLoop_completes (At.start input) ⟨by decide, List.nodup_nil⟩

/-- Lists of parameters are parsed exactly as the grammar has them, and no slice cuts a
character. -/
theorem parseAuthParams_grammar (input : Str) : (parseAuthParams input).isSome = true ∧
    ∀ result, parseAuthParams input = some (.ok result) ↔ IsParams input result := by
  obtain ⟨parsed, found, completes⟩ := parseAuthParams_completes input
  rw [found]
  refine ⟨rfl, fun result => ?_⟩
  rw [Option.some.injEq, completes]
  constructor
  · -- No parameters were read before the first pass.
    intro completed
    obtain ⟨new, list, filled, allowed, same⟩ := completed
    rw [List.nil_append] at filled allowed same
    have few := allowed.few
    rw [lowered, List.length_map] at few
    refine ⟨new, list, ?_, few, allowed.distinct, same⟩
    exact List.length_pos_iff.mpr fun empty => filled (by rw [empty]; rfl)
  · -- The three conditions are those of a list of its own.
    intro generated
    obtain ⟨new, list, some, few, distinct, same⟩ := generated
    refine ⟨new, list, ?_, ⟨?_, distinct⟩, same⟩
    · rw [List.nil_append, lowered]
      exact fun empty => by rw [List.map_eq_nil_iff.mp empty] at some; cases some
    · rwa [List.nil_append, lowered, List.length_map]

end Http11

import Http11.Auth
import Http11.Lib.Iteration

/-! Lists of authentication parameters, read at positions in bytes and written as text. -/

namespace Http11

/-- The parameters of a header, by name in lower case. -/
abbrev AuthParams := List (Str × Str)

/-- The number of parameters that a header may have. -/
def maxAuthParams : Nat := 32

/-- A byte that is a space or a tab. -/
def isOwsByte (byte : UInt8) : Bool := byte == 0x20 || byte == 0x09

/-- The value of quoted text and the bytes up to its closing quote. -/
def scanQuoted (value : Str) (consumed : Nat) : Str → Except AuthError (Str × Nat)
  | [] => .error .invalidParameter
  | char :: rest =>
    if char == '"' then .ok (value, consumed + 1)
    else if char == '\\' then
      match rest with
      | [] => .error .invalidParameter
      | next :: rest =>
        -- Not every character may stand behind a backslash.
        if !isQuotedPairChar next then .error .invalidParameter
        else scanQuoted (value ++ [next]) (consumed + 1 + next.utf8Size) rest
    else if !isQdtextChar char then .error .invalidParameter
    else scanQuoted (value ++ [char]) (consumed + char.utf8Size) rest

/-- The value at a position and the position behind it, or none where a slice cuts a character. -/
def scanValue (input : Str) (i : Nat) : Option (Except AuthError (Str × Nat)) :=
  let bytes := Utf8.encode input
  if bytes[i]? = some 0x22 then
    match sliceFrom input (i + 1) with
    | none => none
    | some inner => some ((scanQuoted [] 0 inner).map
        fun (value, consumed) => (value, i + 1 + consumed))
  else
    -- A token lasts up to white space or a comma.
    let stop := skipWhile (fun byte => !isOwsByte byte && byte != 0x2C) bytes i
    match slice input i stop with
    | none => none
    | some token => some (
        if token.isEmpty || !isValidToken token then .error .invalidParameter
        else .ok (token, stop))

/-- The parameter at a position and the position behind it. -/
def scanParam (input : Str) (i : Nat) : Option (Except AuthError ((Str × Str) × Nat)) :=
  let bytes := Utf8.encode input
  let nameEnd := skipWhile isTokenChar bytes i
  if nameEnd = i then some (.error .invalidParameter)
  else match slice input i nameEnd with
    | none => none
    | some name =>
      -- White space on both sides of the equals sign is passed over.
      let i := skipWhile isOwsByte bytes nameEnd
      if bytes[i]? ≠ some 0x3D then some (.error .invalidParameter)
      else
        let i := skipWhile isOwsByte bytes (i + 1)
        if bytes.length ≤ i then some (.error .invalidParameter)
        else (scanValue input i).map fun scanned =>
          scanned.map fun (value, i) => ((name, value), i)

/-- The parameters with one more, whose name must be new. -/
def addParam (params : AuthParams) (name value : Str) : Except AuthError AuthParams :=
  let key := toAsciiLowercase name
  if params.any fun param => param.1 == key then .error .duplicateParameter
  else if maxAuthParams ≤ params.length then .error .tooManyParameters
  else .ok (params ++ [(key, value)])

/-- The parameters that were read, of which there must be one. -/
def finishParams (params : AuthParams) : Except AuthError AuthParams :=
  if params.isEmpty then .error .invalidFormat else .ok params

/-- One pass over the list: an empty element, or a parameter and the comma behind it. -/
def parseAuthParamsPass (input : Str) (i : Nat) (params : AuthParams) :
    (Nat × AuthParams) ⊕ Option (Except AuthError AuthParams) :=
  let bytes := Utf8.encode input
  if bytes.length ≤ i then .inr (some (finishParams params))
  else
    let i := skipWhile isOwsByte bytes i
    -- An empty element is only a comma.
    if bytes[i]? = some 0x2C then .inl (i + 1, params)
    else
      let i := skipWhile isOwsByte bytes i
      if bytes.length ≤ i then .inr (some (finishParams params))
      else match scanParam input i with
        | none => .inr none
        | some (.error error) => .inr (some (.error error))
        | some (.ok ((name, value), i)) =>
          match addParam params name value with
          | .error error => .inr (some (.error error))
          | .ok params =>
            let i := skipWhile isOwsByte bytes i
            -- The next pass finds the end of the input.
            if bytes.length ≤ i then .inl (i, params)
            else if bytes[i]? = some 0x2C then .inl (i + 1, params)
            else .inr (some (.error .invalidParameter))

/-- Skipping never goes back. -/
theorem le_skipWhile (kind : UInt8 → Bool) (bytes : Bytes) (i : Nat) :
    i ≤ skipWhile kind bytes i := Nat.le_add_right _ _

/-- A value ends no earlier than it starts. -/
theorem le_of_scanValue {input value : Str} {i stop : Nat}
    (scanned : scanValue input i = some (.ok (value, stop))) : i ≤ stop := by
  unfold scanValue at scanned
  dsimp only at scanned
  split at scanned
  · -- Quoted text ends behind its opening quote.
    split at scanned
    · cases scanned
    · rename_i inner _
      cases read : scanQuoted [] 0 inner with
      | error error => simp [read, Except.map] at scanned
      | ok pair =>
        simp only [read, Except.map, Option.some.injEq, Except.ok.injEq, Prod.mk.injEq] at scanned
        omega
  · split at scanned
    · cases scanned
    · split at scanned
      · cases scanned
      · cases scanned
        exact le_skipWhile _ _ _

/-- A parameter is longer than nothing. -/
theorem lt_of_scanParam {input : Str} {param : Str × Str} {i stop : Nat}
    (scanned : scanParam input i = some (.ok (param, stop))) : i < stop := by
  unfold scanParam at scanned
  dsimp only at scanned
  split at scanned
  · cases scanned
  rename_i named
  split at scanned
  · cases scanned
  split at scanned
  · cases scanned
  split at scanned
  · cases scanned
  -- The name has a byte, and everything behind it only goes on.
  have name := le_skipWhile isTokenChar (Utf8.encode input) i
  have before := le_skipWhile isOwsByte (Utf8.encode input)
    (skipWhile isTokenChar (Utf8.encode input) i)
  have behind := le_skipWhile isOwsByte (Utf8.encode input)
    (skipWhile isOwsByte (Utf8.encode input) (skipWhile isTokenChar (Utf8.encode input) i) + 1)
  cases read : scanValue input (skipWhile isOwsByte (Utf8.encode input)
    (skipWhile isOwsByte (Utf8.encode input)
      (skipWhile isTokenChar (Utf8.encode input) i) + 1)) with
  | none => simp [read] at scanned
  | some result =>
    rcases result with error | ⟨value, last⟩
    · simp [read, Except.map] at scanned
    · have value := le_of_scanValue read
      simp only [read, Option.map_some, Except.map, Option.some.injEq, Except.ok.injEq,
        Prod.mk.injEq] at scanned
      omega

/-- The loop over the list of parameters. -/
def parseAuthParamsLoop (input : Str) :
    Iteration (Nat × AuthParams) (Option (Except AuthError AuthParams)) where
  body := fun (i, params) => parseAuthParamsPass input i params
  size := fun (i, _) => (Utf8.encode input).length - i
  decreases := by
    -- A pass that goes on has passed a comma or a parameter.
    rintro ⟨i, params⟩ ⟨next, more⟩ passed
    dsimp only at passed ⊢
    unfold parseAuthParamsPass at passed
    dsimp only at passed
    split at passed
    · cases passed
    have first := le_skipWhile isOwsByte (Utf8.encode input) i
    have second := le_skipWhile isOwsByte (Utf8.encode input)
      (skipWhile isOwsByte (Utf8.encode input) i)
    split at passed
    · cases passed
      omega
    split at passed
    · cases passed
    split at passed
    · cases passed
    · cases passed
    rename_i name value stop scanned
    have longer := lt_of_scanParam scanned
    split at passed
    · cases passed
    have third := le_skipWhile isOwsByte (Utf8.encode input) stop
    split at passed
    · cases passed
      omega
    split at passed
    · cases passed
      omega
    · cases passed

/-- The parameters of a list, or none where a slice cuts a character. -/
def parseAuthParams (input : Str) : Option (Except AuthError AuthParams) :=
  (parseAuthParamsLoop input).run (0, [])

end Http11

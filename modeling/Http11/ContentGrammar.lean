import Http11.AuthGrammar
import Http11.ContentType

/-! The grammar of content types and of what their parser makes of it. -/

namespace Http11

/-- White space, any amount of it. -/
def IsWhite (text : Str) : Prop := ∀ char ∈ text, isWhitespace char = true

/-- White space and semicolons, any number of them. -/
def IsGap (text : Str) : Prop := ∀ char ∈ text, isWhitespace char = true ∨ char = ';'

/-- A parameter as it is written: a name and a value around an equals sign. -/
structure IsContentParam (text name value : Str) : Prop where
  /-- The name is a token. -/
  token : isToken name = true
  /-- The value is written behind the equals sign, with white space around that. -/
  written : ∃ left right shown, IsWhite left ∧ IsWhite right ∧ IsParamValue shown value ∧
    text = name ++ (left ++ '=' :: (right ++ shown))

/-- Parameters behind each other, with or without semicolons between them. -/
inductive IsParameters : Str → List (Str × Str) → Prop where
  /-- No parameter. -/
  | done {text : Str} (gap : IsGap text) : IsParameters text []
  /-- A parameter and others. -/
  | param {gap text rest name value : Str} {others : List (Str × Str)} (between : IsGap gap)
    (param : IsContentParam text name value) (more : IsParameters rest others) :
    IsParameters (gap ++ (text ++ rest)) ((toAsciiLowercase name, value) :: others)

/-- Parameters that are each introduced by a semicolon of their own. -/
inductive IsParameterList : Str → List (Str × Str) → Prop where
  /-- No parameter. -/
  | done {text : Str} (white : IsWhite text) : IsParameterList text []
  /-- A semicolon without a parameter. -/
  | none {before rest : Str} {others : List (Str × Str)} (front : IsWhite before)
    (more : IsParameterList rest others) : IsParameterList (before ++ ';' :: rest) others
  /-- A semicolon and a parameter behind it. -/
  | param {before after text rest name value : Str} {others : List (Str × Str)}
    (front : IsWhite before) (back : IsWhite after) (param : IsContentParam text name value)
    (more : IsParameterList rest others) :
    IsParameterList (before ++ ';' :: (after ++ (text ++ rest)))
      ((toAsciiLowercase name, value) :: others)

/-- A type and a subtype around a slash, with white space around them. -/
def IsMediaType (text mediaType subtype : Str) : Prop :=
  ∃ before left right after, IsWhite before ∧ IsWhite left ∧ IsWhite right ∧ IsWhite after ∧
    isToken mediaType = true ∧ isToken subtype = true ∧
    text = before ++ (mediaType ++ (left ++ '/' :: (right ++ (subtype ++ after))))

/-- A content type whose parameters are each introduced by a semicolon of their own. -/
def IsContentType (text : Str) (contentType : ContentType) : Prop :=
  ∃ front back mediaType subtype, IsMediaType front mediaType subtype ∧
    contentType.mediaType = toAsciiLowercase mediaType ∧
    contentType.subtype = toAsciiLowercase subtype ∧
    IsParameterList back contentType.parameters ∧ text = front ++ back

/-- What is outside of quoted strings, from outside or from inside of one. -/
def unquotedFrom : Bool → Str → Str
  | _, [] => []
  | false, char :: rest =>
    if char = '"' then unquotedFrom true rest else char :: unquotedFrom false rest
  | true, char :: rest =>
    if char = '"' then unquotedFrom false rest
    else if char = '\\' then
      match rest with
      | [] => []
      | _ :: rest => unquotedFrom true rest
    else unquotedFrom true rest

/-- What is outside of quoted strings. -/
def unquoted (text : Str) : Str := unquotedFrom false text

end Http11

import Http11.AuthParams

/-! The grammar of lists of authentication parameters. -/

namespace Http11

/-- Spaces and tabs, any number of them. -/
def IsOwsText (text : Str) : Prop := ∀ char ∈ text, isOws char = true

/-- What stands between two quotes, and the characters that it stands for. -/
inductive IsQuoted : Str → Str → Prop where
  /-- Nothing. -/
  | none : IsQuoted [] []
  /-- A character on its own. -/
  | plain {char : Char} {text value : Str} (plain : isQdtextChar char = true)
    (more : IsQuoted text value) : IsQuoted (char :: text) (char :: value)
  /-- A character behind a backslash. -/
  | pair {char : Char} {text value : Str} (quotable : isQuotedPairChar char = true)
    (more : IsQuoted text value) : IsQuoted ('\\' :: char :: text) (char :: value)

/-- A value of a parameter as it is written: a token or a quoted string. -/
inductive IsParamValue : Str → Str → Prop where
  /-- A token. -/
  | token {value : Str} (token : isToken value = true) : IsParamValue value value
  /-- A quoted string. -/
  | quoted {text value : Str} (quoted : IsQuoted text value) :
    IsParamValue ('"' :: (text ++ ['"'])) value

/-- A parameter as it is written: a name and a value around an equals sign. -/
structure IsAuthParam (text name value : Str) : Prop where
  /-- The name is a token. -/
  token : isToken name = true
  /-- The value is written behind the equals sign, with spaces or tabs around that. -/
  written : ∃ left right shown, IsOwsText left ∧ IsOwsText right ∧ IsParamValue shown value ∧
    text = name ++ left ++ '=' :: (right ++ shown)

/-- An element of a list: nothing or a parameter, with spaces or tabs around it. -/
inductive IsElement : Str → List (Str × Str) → Prop where
  /-- Nothing. -/
  | empty {text : Str} (ows : IsOwsText text) : IsElement text []
  /-- A parameter. -/
  | param {before text after name value : Str} (front : IsOwsText before) (back : IsOwsText after)
    (param : IsAuthParam text name value) : IsElement (before ++ text ++ after) [(name, value)]

/-- Elements with commas between them, and the parameters among them. -/
inductive IsParamList : Str → List (Str × Str) → Prop where
  /-- One element. -/
  | last {text : Str} {params : List (Str × Str)} (element : IsElement text params) :
    IsParamList text params
  /-- An element, a comma and more of them. -/
  | more {front back : Str} {params rest : List (Str × Str)} (element : IsElement front params)
    (others : IsParamList back rest) : IsParamList (front ++ ',' :: back) (params ++ rest)

/-- Parameters with their names in lower case. -/
def lowered (params : List (Str × Str)) : AuthParams :=
  params.map fun (name, value) => (toAsciiLowercase name, value)

/-- A text that the grammar generates with parameters that are allowed together. -/
def IsParams (text : Str) (result : AuthParams) : Prop :=
  ∃ params, IsParamList text params ∧ 1 ≤ params.length ∧ params.length ≤ 32 ∧
    ((lowered params).map Prod.fst).Nodup ∧ result = lowered params

end Http11

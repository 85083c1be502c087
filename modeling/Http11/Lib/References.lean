import Mathlib.Data.List.DropRight
import Http11.Lib.Iteration

/-! References to resources and how they are resolved, by the steps of the standard for URIs. -/

namespace References

/-- The parts of a reference. -/
structure Parts where
  /-- The scheme. -/
  scheme : Option (List Char)
  /-- The authority. -/
  authority : Option (List Char)
  /-- The path. -/
  path : List Char
  /-- The query. -/
  query : Option (List Char)
  /-- The fragment. -/
  fragment : Option (List Char)

/-- A part behind the characters that mark it, or nothing. -/
def marked (mark : List Char) : Option (List Char) → List Char
  | some part => mark ++ part
  | none => []

/-- A reference from its parts. -/
def recompose (parts : Parts) : List Char :=
  (match parts.scheme with
    | some scheme => scheme ++ [':']
    | none => []) ++
  (marked ['/', '/'] parts.authority ++
    (parts.path ++ (marked ['?'] parts.query ++ marked ['#'] parts.fragment)))

/-- A buffer up to its last slash, or nothing. -/
def upToSlash (buffer : List Char) : List Char := buffer.rdropWhile (· != '/')

/-- A buffer without its last segment and the slash before that, if any. -/
def removeLast (buffer : List Char) : List Char := (upToSlash buffer).dropLast

/-- The first segment of a buffer with the slash in front of it, if any. -/
def firstSegment : List Char → List Char
  | [] => []
  | char :: rest => char :: rest.takeWhile (· != '/')

/-- One step on the two buffers, by the first of the rules that applies to the input. -/
def removeDotsStep : List Char × List Char → (List Char × List Char) ⊕ List Char
  | (input, output) =>
    if input = [] then .inr output
    -- A: a prefix that leads nowhere is removed.
    else if ['.', '.', '/'] <+: input then .inl (input.drop 3, output)
    else if ['.', '/'] <+: input then .inl (input.drop 2, output)
    -- B: a segment for the same place is replaced by its slash.
    else if ['/', '.', '/'] <+: input then .inl ('/' :: input.drop 3, output)
    else if input = ['/', '.'] then .inl (['/'], output)
    -- C: a segment for the place above takes the last one off the output.
    else if ['/', '.', '.', '/'] <+: input then .inl ('/' :: input.drop 4, removeLast output)
    else if input = ['/', '.', '.'] then .inl (['/'], removeLast output)
    -- D: what is left is no segment for a name.
    else if input = ['.'] ∨ input = ['.', '.'] then .inl ([], output)
    -- E: any other segment is moved.
    else .inl (input.drop (firstSegment input).length, output ++ firstSegment input)

/-- The removal of dot segments, of which every step shortens the input. -/
def removal : Iteration (List Char × List Char) (List Char) where
  body := removeDotsStep
  size := fun (input, _) => input.length
  decreases := by
    intro state next stepped
    obtain ⟨input, output⟩ := state
    have longer : ∀ {front : List Char}, front <+: input → front.length ≤ input.length :=
      fun found => found.length_le
    unfold removeDotsStep at stepped
    dsimp only at stepped ⊢
    split at stepped
    · cases stepped
    rename_i present
    have positive := List.length_pos_of_ne_nil present
    split at stepped
    · cases stepped
      rw [List.length_drop]
      omega
    split at stepped
    · cases stepped
      rw [List.length_drop]
      omega
    split at stepped
    · rename_i found
      have enough := longer found
      cases stepped
      simp only [List.length_cons, List.length_drop, List.length_nil] at enough ⊢
      omega
    split at stepped
    · rename_i whole
      cases stepped
      simp [whole]
    split at stepped
    · rename_i found
      have enough := longer found
      cases stepped
      simp only [List.length_cons, List.length_drop, List.length_nil] at enough ⊢
      omega
    split at stepped
    · rename_i whole
      cases stepped
      simp [whole]
    split at stepped
    · cases stepped
      exact positive
    · -- A first segment is at least one character long.
      cases stepped
      rw [List.length_drop]
      cases input with
      | nil => exact absurd rfl present
      | cons char rest =>
        simp only [firstSegment, List.length_cons]
        omega

/-- A path without its dot segments. -/
def removeDots (path : List Char) : List Char := removal.run (path, [])

/-- A step that goes on leaves the result to the buffers it passes on. -/
theorem removal_next {input later output kept : List Char}
    (stepped : removeDotsStep (input, output) = .inl (later, kept)) :
    removal.run (input, output) = removal.run (later, kept) :=
  removal.run_of_continue stepped

/-- Without any input the output is the result. -/
theorem removal_nil (output : List Char) : removal.run ([], output) = output :=
  removal.run_of_return rfl

/-- A slash alone is moved. -/
theorem removal_slash (output : List Char) : removal.run (['/'], output) = output ++ ['/'] := by
  have stepped : removeDotsStep (['/'], output) = .inl ([], output ++ ['/']) := by
    simp [removeDotsStep, firstSegment]
  rw [removal_next stepped, removal_nil]

/-- A buffer ends at its last slash, behind which there is none. -/
theorem upToSlash_append {body : List Char} (plain : '/' ∉ body) (front : List Char) :
    upToSlash (front ++ '/' :: body) = front ++ ['/'] := by
  -- Going back from the end, all is dropped up to the slash.
  have others : ∀ char ∈ body.reverse, (char != '/') = true := by
    intro char inside
    have different : char ≠ '/' := fun same => plain (by rwa [same, List.mem_reverse] at inside)
    simpa using different
  rw [upToSlash, List.rdropWhile, List.reverse_append, List.reverse_cons, List.append_assoc,
    List.dropWhile_append_of_pos others]
  simp

/-- Without a slash nothing is left of a buffer. -/
theorem upToSlash_eq_nil {body : List Char} (plain : '/' ∉ body) : upToSlash body = [] := by
  rw [upToSlash, List.rdropWhile_eq_nil_iff]
  intro char inside
  have different : char ≠ '/' := fun same => plain (by rwa [same] at inside)
  simpa using different

/-- The last segment is removed with the slash in front of it. -/
theorem removeLast_append {body : List Char} (plain : '/' ∉ body) (front : List Char) :
    removeLast (front ++ '/' :: body) = front := by
  rw [removeLast, upToSlash_append plain, List.dropLast_concat]

/-- A segment alone is removed. -/
theorem removeLast_eq_nil {body : List Char} (plain : '/' ∉ body) : removeLast body = [] := by
  rw [removeLast, upToSlash_eq_nil plain]
  rfl

/-- A path behind all but the last segment of a base. -/
def merge (base : Parts) (path : List Char) : List Char :=
  if base.authority.isSome ∧ base.path = [] then '/' :: path else upToSlash base.path ++ path

/-- What a reference stands for behind a base. -/
def transform (base reference : Parts) : Parts :=
  if reference.scheme.isSome then { reference with path := removeDots reference.path }
  else if reference.authority.isSome then
    { reference with scheme := base.scheme, path := removeDots reference.path }
  else
    { scheme := base.scheme
      authority := base.authority
      path :=
        if reference.path = [] then base.path
        else if reference.path.head? = some '/' then removeDots reference.path
        else removeDots (merge base reference.path)
      query :=
        if reference.path = [] then reference.query.or base.query else reference.query
      fragment := reference.fragment }

end References

import Http11.Proofs.UriParts

/-! References are resolved as the standard has it. -/

namespace Http11

namespace Uri

/-- Without its last piece an output is what the standard leaves of it. -/
theorem ArePieces.removeLast {pieces : List Str} (are : ArePieces pieces) :
    References.removeLast pieces.flatten = pieces.dropLast.flatten := by
  rcases List.eq_nil_or_concat pieces with rfl | some
  · rfl
  obtain ⟨front, last, rfl⟩ := some
  rw [List.concat_eq_append, List.flatten_append, List.flatten_singleton, List.dropLast_concat]
  cases are.each last (by simp) with
  | slashed plain => exact References.removeLast_append plain front.flatten
  | first plain _ present =>
    -- Only the first of the pieces is without a slash.
    cases front with
    | nil => exact References.removeLast_eq_nil plain
    | cons other front =>
      obtain ⟨body, rfl⟩ := are.slashed last (by simp)
      exact absurd List.mem_cons_self plain

/-- What the code moves to the output is the first segment of the standard. -/
theorem firstSegment_eq {rest : Str} (present : rest ≠ []) :
    References.firstSegment rest = firstPart rest := by
  cases rest with
  | nil => exact absurd rfl present
  | cons char others =>
    unfold firstPart
    split
    · -- A slash begins the segment in both.
      rename_i same
      cases same
      rfl
    · -- Without one the segment begins with its first character in both.
      rename_i plain
      have other : (char != '/') = true := by
        simpa using fun same => plain others (by rw [same])
      rw [List.takeWhile_cons, if_pos other]
      rfl

/-- One pass of the code is one or two steps of the standard, its pieces put together. -/
theorem removeDotSegmentsPass_steps {rest : Str} {output : List Str} (are : ArePieces output) :
    match removeDotSegmentsPass (rest, output) with
    | .inl (later, kept) => References.removal.run (rest, output.flatten) =
        References.removal.run (later, kept.flatten)
    | .inr result => References.removal.run (rest, output.flatten) = result.flatten := by
  have last := are.removeLast
  have next : ∀ {later kept}, References.removeDotsStep (rest, output.flatten) =
      .inl (later, kept) → References.removal.run (rest, output.flatten) =
        References.removal.run (later, kept) := References.removal_next
  -- The conditions of both are tried in the same order.
  unfold removeDotSegmentsPass
  unfold References.removeDotsStep at next
  dsimp only at next ⊢
  by_cases empty : rest = []
  · rw [if_pos empty, empty]
    exact References.removal_nil _
  rw [if_neg empty] at next ⊢
  by_cases above : ['.', '.', '/'] <+: rest
  · rw [if_pos above] at next ⊢
    exact next rfl
  rw [if_neg above] at next ⊢
  by_cases here : ['.', '/'] <+: rest
  · rw [if_pos here] at next ⊢
    exact next rfl
  rw [if_neg here] at next ⊢
  by_cases same : ['/', '.', '/'] <+: rest
  · rw [if_pos same] at next ⊢
    obtain ⟨later, rfl⟩ := same
    exact next rfl
  rw [if_neg same] at next ⊢
  by_cases sameLast : rest = ['/', '.']
  · -- The slash that is left is moved by a second step.
    rw [if_pos sameLast] at next ⊢
    dsimp only
    rw [next rfl, References.removal_slash, List.flatten_append, List.flatten_singleton]
  rw [if_neg sameLast] at next ⊢
  by_cases up : ['/', '.', '.', '/'] <+: rest
  · rw [if_pos up] at next ⊢
    obtain ⟨later, rfl⟩ := up
    dsimp only
    rw [← last]
    exact next rfl
  rw [if_neg up] at next ⊢
  by_cases upLast : rest = ['/', '.', '.']
  · rw [if_pos upLast] at next ⊢
    dsimp only
    rw [next rfl, References.removal_slash, List.flatten_append, List.flatten_singleton, last]
  rw [if_neg upLast] at next ⊢
  by_cases dots : rest = ['.'] ∨ rest = ['.', '.']
  · rw [if_pos dots] at next ⊢
    dsimp only
    rw [next rfl, References.removal_nil]
  rw [if_neg dots, firstSegment_eq empty] at next
  rw [if_neg dots]
  dsimp only
  rw [next rfl, List.flatten_append, List.flatten_singleton]

/-- The loop removes what the steps of the standard remove. -/
theorem removeDotSegmentsLoop_removal {rest : Str} {output : List Str}
    (aligned : Aligned rest output) :
    References.removal.run (rest, output.flatten) =
      (removeDotSegmentsLoop.run (rest, output)).flatten := by
  refine removeDotSegmentsLoop.run_rule (motive := fun state result =>
    Aligned state.1 state.2 → References.removal.run (state.1, state.2.flatten) = result.flatten)
    ?_ ?_ (rest, output) aligned
  · -- The last pass is as many steps of the standard as it needs.
    intro state result passed aligned
    have steps := @removeDotSegmentsPass_steps state.1 _ aligned.pieces
    rw [show removeDotSegmentsPass (state.1, state.2) = .inr result from passed] at steps
    exact steps
  · -- So is a pass that goes on, and the output stays aligned.
    intro state next result passed behind aligned
    have steps := @removeDotSegmentsPass_steps state.1 _ aligned.pieces
    have tells := removeDotSegmentsPass_tells state.1 state.2
    rw [show removeDotSegmentsPass (state.1, state.2) = .inl next from passed] at steps tells
    rw [steps]
    exact behind (tells.aligned aligned)

/-- Dot segments are removed as the standard has it. -/
theorem removeDotSegments_eq (path : Str) :
    removeDotSegments path = References.removeDots path :=
  (removeDotSegmentsLoop_removal ⟨⟨List.forall_mem_nil _, List.forall_mem_nil _⟩, .inl rfl⟩).symm

/-- Dot segments are removed as the standard has it. No segment that is left is one, so that nothing
changes when they are removed again, and a path that starts with a slash goes on doing so. -/
theorem dotSegments_removed (path : Str) :
    removeDotSegments path = References.removeDots path ∧
    (IsSlashed path → IsSlashed (removeDotSegments path)) ∧
    (∀ segment ∈ (removeDotSegments path).splitOn '/', segment ≠ ['.'] ∧ segment ≠ ['.', '.']) ∧
    removeDotSegments (removeDotSegments path) = removeDotSegments path := by
  refine ⟨removeDotSegments_eq path, removeDotSegments_slashed, ?_, removeDotSegments_idempotent path⟩
  obtain ⟨pieces, are, same⟩ := removeDotSegments_pieces path
  rw [same]
  exact are.segments

/-- Steps up behind empty and named segments are taken, and no more than there are. -/
theorem dotSegments_removed_steps :
    References.removeDots "/a/./b/../..//c/..".toList = "//".toList ∧
      IsSlashed (removeDotSegments "/../a/.".toList) := by
  have first : removeDotSegments "/a/./b/../..//c/..".toList = "//".toList := by decide
  have slash : IsSlashed "/../a/.".toList := ⟨_, rfl⟩
  exact ⟨(dotSegments_removed _).1.symm.trans first, (dotSegments_removed _).2.1 slash⟩

/-- A text that does not split at its last separator has none. -/
theorem not_mem_of_rsplitOnce {separator : Char} {text : Str}
    (unsplit : rsplitOnce separator text = none) : separator ∉ text := by
  simp only [rsplitOnce, Option.map_eq_none_iff] at unsplit
  have plain := not_mem_of_splitOnce unsplit
  rwa [List.mem_reverse] at plain

/-- Paths are merged as the standard has it. -/
theorem mergePaths_eq (base : Uri) (referencePath : Str) :
    mergePaths base referencePath = References.merge base.parts referencePath := by
  unfold mergePaths References.merge
  -- An authority without a path puts a slash in front.
  by_cases rootless : base.authority.isSome ∧ base.path = []
  · rw [if_pos rootless]
    exact (if_pos rootless).symm
  rw [if_neg rootless]
  refine Eq.trans ?_ (if_neg rootless).symm
  change _ = References.upToSlash base.path ++ referencePath
  -- Without a slash nothing of the base is kept.
  cases split : rsplitOnce '/' base.path with
  | none => rw [References.upToSlash_eq_nil (not_mem_of_rsplitOnce split), List.nil_append]
  -- All up to the last slash is kept.
  | some parts =>
    obtain ⟨front, back⟩ := parts
    obtain ⟨whole, plain⟩ := rsplitOnce_some split
    rw [whole, References.upToSlash_append plain, List.append_assoc]
    rfl

/-- A reference is resolved by building the target of the standard and parsing it. -/
theorem resolve_eq (base reference : Uri) :
    resolve base reference =
      parse (buildUri (References.transform base.parts reference.parts).scheme
        (References.transform base.parts reference.parts).authority
        (References.transform base.parts reference.parts).path
        (References.transform base.parts reference.parts).query
        (References.transform base.parts reference.parts).fragment) := by
  unfold resolve References.transform
  simp only [removeDotSegments_eq, mergePaths_eq]
  -- The branches are those of the standard.
  by_cases scheme : reference.scheme.isSome
  · rw [if_pos scheme, if_pos (show reference.parts.scheme.isSome from scheme)]
    rfl
  rw [if_neg scheme, if_neg (show ¬ reference.parts.scheme.isSome from scheme)]
  by_cases authority : reference.authority.isSome
  · rw [if_pos authority, if_pos (show reference.parts.authority.isSome from authority)]
    rfl
  rw [if_neg authority, if_neg (show ¬ reference.parts.authority.isSome from authority)]
  by_cases path : reference.path = []
  · rw [if_pos path, if_pos (show reference.parts.path = [] from path),
      if_pos (show reference.parts.path = [] from path)]
    rfl
  · rw [if_neg path, if_neg (show ¬ reference.parts.path = [] from path),
      if_neg (show ¬ reference.parts.path = [] from path)]
    rfl

/-- What is left of an encoded path by its last slash is encoded. -/
theorem upToSlash_encoded {path : Str} (encoded : IsTripletText isPcharOrSlash isHexPair path) :
    IsTripletText isPcharOrSlash isHexPair (References.upToSlash path) := by
  cases split : rsplitOnce '/' path with
  -- Nothing is left of a path without a slash.
  | none =>
    rw [References.upToSlash_eq_nil (not_mem_of_rsplitOnce split)]
    exact .empty
  | some parts =>
    obtain ⟨front, back⟩ := parts
    obtain ⟨rfl, plain⟩ := rsplitOnce_some split
    rw [References.upToSlash_append plain]
    -- A slash is no part of an escape, so the path can be cut there.
    have cut := encoded.split (fun _ _ hex => hex) (by decide)
    exact cut.1.append (.single (by decide) (by decide))

/-- Encoded paths are merged to one. -/
theorem merge_encoded {base : References.Parts} {path : Str}
    (first : IsTripletText isPcharOrSlash isHexPair base.path)
    (second : IsTripletText isPcharOrSlash isHexPair path) :
    IsTripletText isPcharOrSlash isHexPair (References.merge base path) := by
  unfold References.merge
  split
  · exact IsTripletText.append (@IsTripletText.single _ _ '/' (by decide) (by decide)) second
  · exact (upToSlash_encoded first).append second

/-- Behind an authority paths are merged to a slashed one. -/
theorem merge_slashed {base : References.Parts} (present : base.authority ≠ none)
    (rooted : base.path = [] ∨ IsSlashed base.path) (path : Str) :
    IsSlashed (References.merge base path) := by
  have authority : base.authority.isSome := Option.isSome_iff_ne_none.mpr present
  unfold References.merge
  rcases rooted with empty | slashed
  · rw [if_pos ⟨authority, empty⟩]
    exact ⟨path, rfl⟩
  · obtain ⟨later, whole⟩ := slashed
    rw [if_neg (by simp [whole]), whole]
    -- The slash in front is the last one or stands before it.
    cases split : rsplitOnce '/' later with
    | none =>
      rw [show '/' :: later = [] ++ '/' :: later from rfl,
        References.upToSlash_append (not_mem_of_rsplitOnce split)]
      exact ⟨_, rfl⟩
    | some parts =>
      obtain ⟨front, back⟩ := parts
      obtain ⟨rfl, plain⟩ := rsplitOnce_some split
      rw [← List.cons_append, References.upToSlash_append plain]
      exact ⟨_, rfl⟩

/-- A path without its dot segments stays encoded. -/
theorem removeDots_encoded {path : Str} (encoded : IsTripletText isPcharOrSlash isHexPair path) :
    IsTripletText isPcharOrSlash isHexPair (References.removeDots path) := by
  rw [← removeDotSegments_eq]
  exact encoded.removeDotSegments (fun _ _ hex => hex) (by decide)

/-- A path without its dot segments stays slashed. -/
theorem removeDots_slashed {path : Str} (slashed : IsSlashed path) :
    IsSlashed (References.removeDots path) := by
  rw [← removeDotSegments_eq]
  exact removeDotSegments_slashed slashed

/-- A path without its dot segments stays empty or slashed. -/
theorem removeDots_rooted {path : Str} (rooted : path = [] ∨ IsSlashed path) :
    References.removeDots path = [] ∨ IsSlashed (References.removeDots path) := by
  rcases rooted with rfl | slashed
  · exact .inl (References.removal_nil [])
  · exact .inr (removeDots_slashed slashed)

section Targets

variable {base reference : References.Parts}

/-- The parser accepts the target of what it accepted. -/
theorem IsChecked.transform (first : IsChecked base) (second : IsChecked reference) :
    IsChecked (References.transform base reference) := by
  unfold References.transform
  -- Each part comes from the base or from the reference.
  by_cases scheme : reference.scheme.isSome
  · rw [if_pos scheme]
    exact ⟨second.scheme, removeDots_encoded second.path, second.query, second.fragment⟩
  rw [if_neg scheme]
  by_cases authority : reference.authority.isSome
  · rw [if_pos authority]
    exact ⟨first.scheme, removeDots_encoded second.path, second.query, second.fragment⟩
  rw [if_neg authority]
  by_cases empty : reference.path = []
  · rw [if_pos empty, if_pos empty]
    refine ⟨first.scheme, first.path, fun query found => ?_, second.fragment⟩
    rcases Option.or_eq_some_iff.mp found with own | other
    · exact second.query query own
    · exact first.query query other.2
  · rw [if_neg empty, if_neg empty]
    refine ⟨first.scheme, ?_, second.query, second.fragment⟩
    dsimp only
    split
    · exact removeDots_encoded second.path
    · exact removeDots_encoded (merge_encoded first.path second.path)

/-- The target of plain parts is plain when its path is encoded. -/
theorem IsPlain.transform (first : IsPlain base) (second : IsPlain reference)
    (checked : IsChecked (References.transform base reference)) :
    IsPlain (References.transform base reference) := by
  have path := inPath_of_encoded checked.path
  clear checked
  unfold References.transform at path ⊢
  by_cases scheme : reference.scheme.isSome
  · rw [if_pos scheme] at path ⊢
    exact ⟨second.scheme, second.authority, fun present => removeDots_rooted (second.rooted present),
      path, second.query⟩
  rw [if_neg scheme] at path ⊢
  by_cases authority : reference.authority.isSome
  · rw [if_pos authority] at path ⊢
    exact ⟨first.scheme, second.authority, fun present => removeDots_rooted (second.rooted present),
      path, second.query⟩
  rw [if_neg authority] at path ⊢
  by_cases empty : reference.path = []
  · rw [if_pos empty, if_pos empty] at path ⊢
    refine ⟨first.scheme, first.authority, first.rooted, path, fun query found => ?_⟩
    rcases Option.or_eq_some_iff.mp found with own | other
    · exact second.query query own
    · exact first.query query other.2
  · rw [if_neg empty, if_neg empty] at path ⊢
    refine ⟨first.scheme, first.authority, fun present => .inr ?_, path, second.query⟩
    dsimp only at present ⊢
    split
    · -- The path of the reference starts with a slash.
      rename_i slash
      obtain ⟨char, later, whole⟩ := List.exists_cons_of_ne_nil empty
      rw [whole, List.head?_cons, Option.some.injEq] at slash
      exact removeDots_slashed ⟨later, by rw [whole, slash]⟩
    · exact removeDots_slashed (merge_slashed present (first.rooted present) _)

/-- The authority of the target is that of the base or of the reference. -/
theorem transform_authority :
    (References.transform base reference).authority = reference.authority ∨
      (References.transform base reference).authority = base.authority := by
  unfold References.transform
  split
  · exact .inl rfl
  split
  · exact .inl rfl
  · exact .inr rfl

/-- Behind a base with a scheme the target has one. -/
theorem transform_scheme (scheme : base.scheme.isSome) :
    (References.transform base reference).scheme.isSome := by
  unfold References.transform
  split
  · assumption
  split
  · exact scheme
  · exact scheme

end Targets

/-- Behind a base with a scheme every reference resolves to its target, told apart by a guard. -/
theorem resolve_transform {base reference : Str} {baseUri referenceUri : Uri}
    (parsedBase : parse base = .ok baseUri) (scheme : baseUri.scheme.isSome)
    (parsedReference : parse reference = .ok referenceUri) :
    ∃ target, resolve baseUri referenceUri = .ok target ∧
      target.scheme = (References.transform baseUri.parts referenceUri.parts).scheme ∧
      target.authority = (References.transform baseUri.parts referenceUri.parts).authority ∧
      target.path =
        (if target.authority = none ∧ ['/', '/'] <+:
            (References.transform baseUri.parts referenceUri.parts).path
          then ['/', '.'] else []) ++
        (References.transform baseUri.parts referenceUri.parts).path ∧
      target.query = (References.transform baseUri.parts referenceUri.parts).query ∧
      target.fragment = (References.transform baseUri.parts referenceUri.parts).fragment := by
  obtain ⟨_, _, first, firstChecked, firstAuthority⟩ := parts_of_parse parsedBase
  obtain ⟨_, _, second, secondChecked, secondAuthority⟩ := parts_of_parse parsedReference
  have checked := firstChecked.transform secondChecked
  have plain := first.toIsPlain.transform second.toIsPlain checked
  have schemed := @transform_scheme baseUri.parts referenceUri.parts scheme
  have authority : ∃ told, checkAuthority
      (References.transform baseUri.parts referenceUri.parts).authority = .ok told := by
    rcases @transform_authority baseUri.parts referenceUri.parts with own | other
    · exact ⟨_, by rw [own]; exact secondAuthority⟩
    · exact ⟨_, by rw [other]; exact firstAuthority⟩
  rw [resolve_eq]
  generalize References.transform baseUri.parts referenceUri.parts = target at *
  obtain ⟨⟨hostEnd, port⟩, told⟩ := authority
  obtain ⟨name, named⟩ := Option.isSome_iff_exists.mp schemed
  have present : buildUri target.scheme target.authority target.path target.query
      target.fragment ≠ [] := by
    unfold buildUri
    rw [named]
    simp
  refine ⟨_, parse_buildUri plain checked told present, rfl, rfl, ?_, rfl, rfl⟩
  dsimp only
  -- With a scheme only slashes are guarded.
  rcases pathGuard_cases target with some | slashes | colon | unguarded
  · rw [if_neg (fun both => some.1 both.1), some.2]
    rfl
  · rw [if_pos ⟨slashes.1, slashes.2.1⟩, slashes.2.2]
    rfl
  · rw [colon.2.2.1] at named
    cases named
  · rw [if_neg (fun both => unguarded.2.1 both.2), unguarded.2.2.2]
    rfl

/-- A reference that goes up more often than the base goes down stays at the root. -/
example : ((parse "http://a/b/c/d;p?q".toList).bind fun base =>
    (parse "../../../g".toList).bind fun reference => (resolve base reference).map source) =
      .ok "http://a/g".toList := by decide +kernel

/-- A base without an authority, and a reference that goes up to an empty segment. -/
theorem resolve_transform_guarded : ∃ base reference,
    parse "urn:/a/b".toList = .ok base ∧ parse "..//c".toList = .ok reference ∧
      ∃ target, resolve base reference = .ok target ∧ target.path = "/.//c".toList := by
  have parsedBase : parse "urn:/a/b".toList = .ok ⟨"urn:/a/b".toList, some "urn".toList, none, 0,
      none, "/a/b".toList, none, none⟩ := by decide +kernel
  have parsedReference : parse "..//c".toList = .ok ⟨"..//c".toList, none, none, 0, none,
      "..//c".toList, none, none⟩ := by decide
  obtain ⟨target, resolved, _, authority, path, _⟩ :=
    resolve_transform parsedBase rfl parsedReference
  refine ⟨_, _, parsedBase, parsedReference, target, resolved, ?_⟩
  rw [path, authority]
  decide

end Uri

end Http11

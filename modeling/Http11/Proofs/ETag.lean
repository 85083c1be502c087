import Http11.ETag
import Http11.Proofs.Expect

/-! Lists of entity tags are the same when they are parsed again. -/

namespace Http11

/-- The scanner of lists of entity tags, in which a backslash has no meaning. -/
def tagging : Cutting Bool Char where
  start := false
  step := fun inQuotes char => if char == '"' then !inQuotes else inQuotes
  isDelimiter := fun char => char == ','

/-- Lists of entity tags are cut by their scanner. -/
theorem splitEtagListRaw_eq (input : Str) : splitEtagListRaw input = tagging.cut input := by
  -- The generalization is to every state of the scanner.
  have general : ∀ inQuotes, splitEtagListRawFrom inQuotes input = tagging.cutFrom inQuotes input := by
    induction input with
    | nil => exact fun _ => rfl
    | cons char rest ih =>
      intro inQuotes
      rw [splitEtagListRawFrom, Cutting.cutFrom]
      simp only [ih]
      by_cases quote : char = '"'
      · subst quote
        cases inQuotes <;> rfl
      · cases inQuotes <;> simp [quote, tagging, Cutting.cuts]
  exact general false

namespace EntityTag

/-- No tag has a quote inside. -/
theorem quote_free (etag : EntityTag) : '"' ∉ etag.tag :=
  not_mem_of_encode_all etag.valid (by decide) (by decide)

/-- What is printed of a tag is one part of a list. -/
theorem display_closed (etag : EntityTag) : tagging.IsClosed etag.display := by
  -- Inside of the quotes nothing is cut, and nothing leads outside.
  have inside : ∀ text : Str, '"' ∉ text →
      tagging.run true text = true ∧ tagging.IsWhole true text := by
    intro text plain
    induction text with
    | nil => exact ⟨rfl, trivial⟩
    | cons char rest ih =>
      rw [List.mem_cons, not_or] at plain
      obtain ⟨run, whole⟩ := ih plain.2
      have step : tagging.step true char = true := by simp [tagging, Ne.symm plain.1]
      rw [Cutting.run, List.foldl_cons, Cutting.IsWhole, step]
      exact ⟨run, rfl, whole⟩
  obtain ⟨run, whole⟩ := inside etag.tag etag.quote_free
  have quoted : tagging.IsClosed ('"' :: (etag.tag ++ ['"'])) := by
    refine ⟨⟨rfl, ?_⟩, ?_⟩
    · change tagging.IsWhole true (etag.tag ++ ['"'])
      rw [Cutting.isWhole_append, run]
      exact ⟨whole, rfl, trivial⟩
    · change tagging.run true (etag.tag ++ ['"']) = false
      rw [Cutting.run_append, run]
      rfl
  have front : tagging.IsClosed (if etag.isWeak then ['W', '/'] else []) := by
    cases etag.isWeak with
    | true => exact ⟨⟨rfl, rfl, trivial⟩, rfl⟩
    | false => exact ⟨trivial, rfl⟩
  exact front.append quoted

/-- What is printed of a tag has no white space around it. -/
theorem display_trimmed (etag : EntityTag) :
    etag.display ≠ [] ∧ Trimming.IsTrimmed isWhitespace etag.display := by
  -- Quotation marks stand at the end, and they or the mark in front.
  have quote : Trimming.IsTrimmed isWhitespace ['"'] := Trimming.isTrimmed_of_none (by simp; decide)
  have mark : Trimming.IsTrimmed isWhitespace ['W', '/'] :=
    Trimming.isTrimmed_of_none (by simp; decide)
  unfold display
  cases etag.isWeak with
  | true => exact ⟨by simp, Trimming.isTrimmed_append ('"' :: etag.tag) (by simp) (by simp) mark quote⟩
  | false => exact ⟨by simp, Trimming.isTrimmed_append etag.tag (by simp) (by simp) quote quote⟩

/-- What is printed of a tag is parsed as it. -/
theorem parse_display (etag : EntityTag) : parse etag.display = .ok etag := by
  obtain ⟨filled, trimmed⟩ := etag.display_trimmed
  have same : trim etag.display = etag.display := trimmed.trim_eq
  -- A tag has no quotation mark in it, so the first one closes it.
  have split : splitOnce '"' (etag.tag ++ ['"']) = some (etag.tag, []) :=
    splitOnce_append etag.quote_free []
  have built : ofTag etag.isWeak etag.tag = .ok etag := dif_pos etag.valid
  unfold parse
  rw [same]
  dsimp only
  rw [if_neg (by simpa using filled)]
  obtain ⟨isWeak, tag, valid⟩ := etag
  cases isWeak with
  | true => simp [display, stripPrefix, split, built]
  | false => simp [display, stripPrefix, split, built]

end EntityTag

/-- A list of entity tags is parsed as them. -/
theorem parseEtagList_display {etags : List EntityTag} (present : etags ≠ []) :
    parseEtagList (ETagList.tags etags).display = .ok (.tags etags) := by
  have parts : ∀ text ∈ etags.map EntityTag.display, tagging.IsClosed text ∧ text ≠ [] ∧
      Trimming.IsTrimmed isWhitespace text := by
    intro text inside
    obtain ⟨etag, _, rfl⟩ := List.mem_map.mp inside
    exact ⟨etag.display_closed, etag.display_trimmed⟩
  obtain ⟨trimmed, filled⟩ := Trimming.isTrimmed_intercalate [',', ' '] fun text inside =>
    (parts text inside).2
  have same : trim (ETagList.tags etags).display = (ETagList.tags etags).display := trimmed.trim_eq
  have are := Cutting.areParts_of_closed (by simpa using present) fun text inside =>
    (parts text inside).1
  have cut : splitEtagListRaw (ETagList.tags etags).display =
      Cutting.padded ' ' (etags.map EntityTag.display) := by
    rw [splitEtagListRaw_eq]
    exact are.cut_padded rfl rfl rfl
  have read : parseElements trim EntityTag.parse (Cutting.padded ' ' (etags.map EntityTag.display)) =
      .ok etags := by
    refine (parseElements_padded (fun text inside => (parts text inside).2.1)
      (fun text inside => trimmed_space (parts text inside).2.2)).mpr ?_
    exact List.forall₂_map_left_iff.mpr (List.forall₂_same.mpr fun etag _ => etag.parse_display)
  -- The list does not look like the one of all tags, which has no quote.
  have other : ((ETagList.tags etags).display == ['*']) = false := by
    refine beq_eq_false_iff_ne.mpr fun star => ?_
    rw [star] at cut
    change [['*']] = _ at cut
    obtain ⟨first, others, rfl⟩ := List.exists_cons_of_ne_nil present
    rw [List.map_cons, Cutting.padded, List.cons.injEq] at cut
    have quote : '"' ∈ first.display := by simp [EntityTag.display]
    rw [← cut.1] at quote
    simp at quote
  have written : (ETagList.tags etags).display ≠ [] := filled (by simpa using present)
  have nonempty : etags.isEmpty = false := by simpa using present
  unfold parseEtagList
  rw [same]
  dsimp only
  rw [if_neg (by simpa using written), other, cut, read]
  simp [nonempty]

/-- Expectations and lists of entity tags are the same when what is printed of them is parsed. -/
theorem quotedLists_survive :
    (∀ input expect, Expect.parse input = .ok expect → Expect.parse expect.display = .ok expect) ∧
      ∀ etags : List EntityTag, etags ≠ [] →
        parseEtagList (ETagList.tags etags).display = .ok (.tags etags) := by
  refine ⟨fun input expect parsed => ?_, fun etags present => parseEtagList_display present⟩
  exact Expect.parse_display (Expect.parse_stored parsed)

/-- Expectations and entity tags with delimiters between their quotes survive. -/
theorem quotedLists_survive_delimiters :
    Expect.parse (Expect.display ⟨[⟨['a'], some [',', '"']⟩, ⟨['b'], none⟩]⟩) =
        .ok ⟨[⟨['a'], some [',', '"']⟩, ⟨['b'], none⟩]⟩ ∧
      parseEtagList (ETagList.tags [⟨true, [',', '\\'], by decide⟩, ⟨false, ['é'], by decide⟩]).display =
        .ok (.tags [⟨true, [',', '\\'], by decide⟩, ⟨false, ['é'], by decide⟩]) :=
  ⟨quotedLists_survive.1 "A=\",\\\"\" , b".toList _ (by decide),
    quotedLists_survive.2 _ (List.cons_ne_nil _ _)⟩

end Http11

import Http11.Lib.References
import Http11.Proofs.Text
import Http11.Resolve

/-! Dot segments are removed as the standard has it, and only once. -/

namespace Http11

namespace Uri

/-- Characters of a segment. -/
def inSegment (char : Char) : Bool := char != '/'

/-- Dot segments with slashes between and perhaps behind them. -/
abbrev AreDots : Str → Prop :=
  AreSegments fun segment => segment = ['.'] ∨ segment = ['.', '.']

/-- A segment that is no dot segment, with the slash in front of it unless it is the first one. -/
inductive IsPiece : Str → Prop where
  /-- A segment behind a slash. -/
  | slashed {body : Str} (plain : '/' ∉ body) (named : body ≠ ['.'] ∧ body ≠ ['.', '.']) :
    IsPiece ('/' :: body)
  /-- A first segment, which is not empty. -/
  | first {body : Str} (plain : '/' ∉ body) (named : body ≠ ['.'] ∧ body ≠ ['.', '.'])
    (present : body ≠ []) : IsPiece body

/-- What one pass does with a path and the pieces that were kept. -/
inductive PassTells (output : List Str) : Str → (Str × List Str) ⊕ List Str → Prop where
  /-- Nothing is left. -/
  | done : PassTells output [] (.inr output)
  /-- A step up in front of the path leads nowhere. -/
  | above {later : Str} : PassTells output ('.' :: '.' :: '/' :: later) (.inl (later, output))
  /-- So does a step to the same place. -/
  | here {later : Str} : PassTells output ('.' :: '/' :: later) (.inl (later, output))
  /-- A segment for the same place is left out. -/
  | same {later : Str} :
    PassTells output ('/' :: '.' :: '/' :: later) (.inl ('/' :: later, output))
  /-- At the end its slash stays. -/
  | sameLast : PassTells output ['/', '.'] (.inr (output ++ [['/']]))
  /-- A segment for the place above takes a piece away. -/
  | up {later : Str} :
    PassTells output ('/' :: '.' :: '.' :: '/' :: later) (.inl ('/' :: later, output.dropLast))
  /-- At the end its slash stays, too. -/
  | upLast : PassTells output ['/', '.', '.'] (.inr (output.dropLast ++ [['/']]))
  /-- Nothing but a dot segment is left. -/
  | dots {rest : Str} (dots : rest = ['.'] ∨ rest = ['.', '.']) :
    PassTells output rest (.inr output)
  /-- Any other segment is kept. -/
  | piece {piece later : Str} (isPiece : IsPiece piece) (ends : Stops inSegment later) :
    PassTells output (piece ++ later) (.inl (later, output ++ [piece]))

/-- A segment stands in front of what stops it. -/
theorem segment_append {body later : Str} (plain : '/' ∉ body) (ends : Stops inSegment later) :
    (body ++ later).takeWhile inSegment = body := by
  refine ends.takeWhile fun char inside => ?_
  have other : char ≠ '/' := fun same => plain (by rwa [← same])
  simp [inSegment, other]

/-- Every path but the dot segments starts with a piece. -/
theorem firstPart_piece {rest : Str} (present : rest ≠ [])
    (noAbove : ¬ ['.', '.', '/'] <+: rest) (noHere : ¬ ['.', '/'] <+: rest)
    (noSame : ¬ ['/', '.', '/'] <+: rest) (noSameLast : rest ≠ ['/', '.'])
    (noUp : ¬ ['/', '.', '.', '/'] <+: rest) (noUpLast : rest ≠ ['/', '.', '.'])
    (noDots : ¬ (rest = ['.'] ∨ rest = ['.', '.'])) :
    ∃ piece later, IsPiece piece ∧ Stops inSegment later ∧ rest = piece ++ later ∧
      firstPart rest = piece := by
  -- A segment is followed by nothing or by a slash.
  have follows : ∀ text : Str, text.dropWhile inSegment = [] ∨
      ∃ others, text.dropWhile inSegment = '/' :: others := by
    intro text
    cases behind : text.dropWhile inSegment with
    | nil => exact .inl rfl
    | cons char others =>
      have first := List.head?_dropWhile_not inSegment text
      rw [behind, List.head?_cons] at first
      have slash : char = '/' := by simpa [inSegment] using first
      exact .inr ⟨others, by rw [slash]⟩
  have plain : ∀ text : Str, '/' ∉ text.takeWhile inSegment := by
    intro text inside
    have kept := List.mem_takeWhile_imp inside
    exact absurd kept (by decide)
  have parts : ∀ text : Str, text = text.takeWhile inSegment ++ text.dropWhile inSegment :=
    fun text => List.takeWhile_append_dropWhile.symm
  by_cases slash : ∃ others, rest = '/' :: others
  · obtain ⟨others, rfl⟩ := slash
    refine ⟨'/' :: others.takeWhile inSegment, others.dropWhile inSegment, ?_,
      stops_dropWhile _ _, ?_, rfl⟩
    · refine .slashed (plain others) ⟨fun dot => ?_, fun dots => ?_⟩
      · rcases follows others with ends | ⟨left, ends⟩
        · exact noSameLast (by rw [parts others, dot, ends]; rfl)
        · exact noSame ⟨left, by rw [parts others, dot, ends]; rfl⟩
      · rcases follows others with ends | ⟨left, ends⟩
        · exact noUpLast (by rw [parts others, dots, ends]; rfl)
        · exact noUp ⟨left, by rw [parts others, dots, ends]; rfl⟩
    · rw [List.cons_append, ← parts]
  · refine ⟨rest.takeWhile inSegment, rest.dropWhile inSegment, ?_, stops_dropWhile _ _,
      parts rest, ?_⟩
    · refine .first (plain rest) ⟨fun dot => ?_, fun dots => ?_⟩ fun empty => ?_
      · rcases follows rest with ends | ⟨left, ends⟩
        · exact noDots (.inl (by rw [parts rest, dot, ends]; rfl))
        · exact noHere ⟨left, by rw [parts rest, dot, ends]; rfl⟩
      · rcases follows rest with ends | ⟨left, ends⟩
        · exact noDots (.inr (by rw [parts rest, dots, ends]; rfl))
        · exact noAbove ⟨left, by rw [parts rest, dots, ends]; rfl⟩
      · rcases follows rest with ends | ⟨left, ends⟩
        · exact present (by rw [parts rest, empty, ends]; rfl)
        · exact slash ⟨left, by rw [parts rest, empty, ends]; rfl⟩
    · unfold firstPart
      split
      · exact absurd ⟨_, rfl⟩ slash
      · rfl

/-- A pass does what it tells. -/
theorem removeDotSegmentsPass_tells (rest : Str) (output : List Str) :
    PassTells output rest (removeDotSegmentsPass (rest, output)) := by
  unfold removeDotSegmentsPass
  dsimp only
  -- The rules are tried one after the other.
  by_cases empty : rest = []
  · rw [if_pos empty, empty]
    exact .done
  rw [if_neg empty]
  by_cases above : ['.', '.', '/'] <+: rest
  · rw [if_pos above]
    obtain ⟨later, rfl⟩ := above
    exact .above
  rw [if_neg above]
  by_cases here : ['.', '/'] <+: rest
  · rw [if_pos here]
    obtain ⟨later, rfl⟩ := here
    exact .here
  rw [if_neg here]
  by_cases same : ['/', '.', '/'] <+: rest
  · rw [if_pos same]
    obtain ⟨later, rfl⟩ := same
    exact .same
  rw [if_neg same]
  by_cases sameLast : rest = ['/', '.']
  · rw [if_pos sameLast, sameLast]
    exact .sameLast
  rw [if_neg sameLast]
  by_cases up : ['/', '.', '.', '/'] <+: rest
  · rw [if_pos up]
    obtain ⟨later, rfl⟩ := up
    exact .up
  rw [if_neg up]
  by_cases upLast : rest = ['/', '.', '.']
  · rw [if_pos upLast, upLast]
    exact .upLast
  rw [if_neg upLast]
  by_cases dots : rest = ['.'] ∨ rest = ['.', '.']
  · rw [if_pos dots]
    exact .dots dots
  rw [if_neg dots]
  obtain ⟨piece, later, isPiece, ends, whole, first⟩ :=
    firstPart_piece empty above here same sameLast up upLast dots
  rw [first, whole, List.drop_left]
  exact .piece isPiece ends

/-- Of a path that starts with a piece a pass keeps that. -/
theorem removeDotSegmentsPass_piece {piece later : Str} (isPiece : IsPiece piece)
    (ends : Stops inSegment later) (output : List Str) :
    removeDotSegmentsPass (piece ++ later, output) = .inl (later, output ++ [piece]) := by
  have tells := removeDotSegmentsPass_tells (piece ++ later) output
  -- Every other rule asks for a dot segment in the place of the piece.
  generalize whole : piece ++ later = rest at tells
  generalize removeDotSegmentsPass (rest, output) = passed at tells
  cases isPiece with
  | @slashed body plain named =>
    have taken := segment_append plain ends
    rw [List.cons_append] at whole
    cases tells with
    | done | above | here => cases whole
    | dots dots => rcases dots with rfl | rfl <;> cases whole
    | same | sameLast =>
      rw [(List.cons.inj whole).2] at taken
      exact absurd taken.symm named.1
    | up | upLast =>
      rw [(List.cons.inj whole).2] at taken
      exact absurd taken.symm named.2
    | @piece other left isOther others =>
      cases isOther with
      | @slashed front plainFront _ =>
        have behind : body ++ later = front ++ left := (List.cons.inj whole).2
        rw [behind, segment_append plainFront others] at taken
        rw [taken] at behind ⊢
        rw [List.append_cancel_left behind]
      | @first front plainFront _ present =>
        obtain ⟨char, more, rfl⟩ := List.exists_cons_of_ne_nil present
        rw [List.cons_append] at whole
        rw [← (List.cons.inj whole).1] at plainFront
        exact absurd List.mem_cons_self plainFront
  | first plain named present =>
    have taken := segment_append plain ends
    rw [whole] at taken
    have slashless : ∀ others, rest ≠ '/' :: others := by
      rintro others rfl
      exact present taken.symm
    cases tells with
    | done => exact absurd taken.symm present
    | above => exact absurd taken.symm named.2
    | here => exact absurd taken.symm named.1
    | same | sameLast | up | upLast => exact absurd rfl (slashless _)
    | dots dots =>
      rcases dots with rfl | rfl
      · exact absurd taken.symm named.1
      · exact absurd taken.symm named.2
    | @piece other left isOther others =>
      cases isOther with
      | slashed => exact absurd rfl (slashless _)
      | first plainFront =>
        rw [segment_append plainFront others] at taken
        rw [taken] at whole ⊢
        rw [List.append_cancel_left whole]

/-- Pieces of a path: only the first of them may stand behind no slash. -/
structure ArePieces (pieces : List Str) : Prop where
  /-- Each of them is one. -/
  each : ∀ piece ∈ pieces, IsPiece piece
  /-- The later ones stand behind a slash. -/
  slashed : ∀ piece ∈ pieces.tail, ∃ body, piece = '/' :: body

/-- Pieces are so without the last one. -/
theorem ArePieces.dropLast {pieces : List Str} (are : ArePieces pieces) :
    ArePieces pieces.dropLast where
  each := fun piece inside => are.each piece (List.dropLast_subset _ inside)
  slashed := fun piece inside => by
    rw [List.tail_dropLast] at inside
    exact are.slashed piece (List.dropLast_subset _ inside)

/-- A piece behind a slash may follow all others, and any piece may be the first one. -/
theorem ArePieces.append {pieces : List Str} (are : ArePieces pieces) {piece : Str}
    (isPiece : IsPiece piece) (aligned : pieces = [] ∨ ∃ body, piece = '/' :: body) :
    ArePieces (pieces ++ [piece]) := by
  refine ⟨?_, ?_⟩
  · exact List.forall_mem_append.mpr ⟨are.each, List.forall_mem_singleton.mpr isPiece⟩
  · intro other inside
    cases pieces with
    -- The first piece needs no slash, every later one does.
    | nil => cases inside
    | cons first rest =>
      rcases aligned with empty | slash
      · cases empty
      · rw [List.cons_append, List.tail_cons, List.mem_append, List.mem_singleton] at inside
        rcases inside with before | rfl
        · exact are.slashed other before
        · exact slash

/-- A slash alone is a piece. -/
theorem slash_isPiece : IsPiece ['/'] := .slashed List.not_mem_nil ⟨by decide, by decide⟩

/-- What is left of a path and the pieces that were kept fit together. -/
structure Aligned (rest : Str) (output : List Str) : Prop where
  /-- Pieces were kept. -/
  pieces : ArePieces output
  /-- Behind them a slash follows, unless nothing does. -/
  follows : output = [] ∨ Stops inSegment rest

/-- A path stops a segment where it starts with a slash. -/
theorem stops_slash (later : Str) : Stops inSegment ('/' :: later) := stops_cons (by decide)

/-- A path that starts with a character of a segment stops none. -/
theorem not_stops {char : Char} {later : Str} (other : inSegment char = true) :
    ¬ Stops inSegment (char :: later) := by
  intro stops
  rw [Stops, List.takeWhile_cons_of_pos other] at stops
  cases stops

/-- A piece fits where it stands behind the others. -/
theorem Aligned.piece {piece later : Str} {output : List Str} (isPiece : IsPiece piece)
    (aligned : Aligned (piece ++ later) output) : ArePieces (output ++ [piece]) := by
  refine aligned.pieces.append isPiece ?_
  rcases aligned.follows with empty | stops
  · exact .inl empty
  · cases isPiece with
    | slashed => exact .inr ⟨_, rfl⟩
    | first plain _ present =>
      -- A first piece begins with a character of a segment.
      obtain ⟨char, more, rfl⟩ := List.exists_cons_of_ne_nil present
      have other : inSegment char = true := by
        have different : char ≠ '/' := fun same => plain (by rw [same]; exact List.mem_cons_self)
        simp [inSegment, different]
      exact absurd stops (not_stops other)

/-- Behind a character of a segment nothing was kept yet. -/
theorem Aligned.unslashed {char : Char} {others : Str} {output : List Str}
    (aligned : Aligned (char :: others) output) (other : inSegment char = true) (later : Str) :
    Aligned later output :=
  ⟨aligned.pieces, aligned.follows.imp id fun stops => absurd stops (not_stops other)⟩

/-- A pass that goes on keeps a path and its pieces together. -/
theorem PassTells.aligned {rest later : Str} {output kept : List Str}
    (tells : PassTells output rest (.inl (later, kept))) (aligned : Aligned rest output) :
    Aligned later kept := by
  cases tells with
  | above => exact aligned.unslashed (by decide) later
  | here => exact aligned.unslashed (by decide) later
  | same => exact ⟨aligned.pieces, .inr (stops_slash _)⟩
  | up => exact ⟨aligned.pieces.dropLast, .inr (stops_slash _)⟩
  | piece isPiece ends => exact ⟨aligned.piece isPiece, .inr ends⟩

/-- A pass that returns leaves pieces. -/
theorem PassTells.pieces {rest : Str} {output result : List Str}
    (tells : PassTells output rest (.inr result)) (aligned : Aligned rest output) :
    ArePieces result := by
  cases tells with
  | done => exact aligned.pieces
  | sameLast => exact aligned.pieces.append slash_isPiece (.inr ⟨[], rfl⟩)
  | upLast => exact aligned.pieces.dropLast.append slash_isPiece (.inr ⟨[], rfl⟩)
  | dots => exact aligned.pieces

/-- What each rule establishes or preserves backwards holds of the whole loop. -/
theorem removeDotSegmentsLoop_rule {motive : Str → List Str → List Str → Prop}
    (returns : ∀ {rest output result}, PassTells output rest (.inr result) →
      motive rest output result)
    (goesOn : ∀ {rest later output kept result}, PassTells output rest (.inl (later, kept)) →
      motive later kept result → motive rest output result)
    (rest : Str) (output : List Str) :
    motive rest output (removeDotSegmentsLoop.run (rest, output)) := by
  -- The rule of the loop, with what each pass tells put in place of the pass.
  refine removeDotSegmentsLoop.run_rule
    (motive := fun state result => motive state.1 state.2 result) ?_ ?_ (rest, output)
  · intro state result passed
    have tells := removeDotSegmentsPass_tells state.1 state.2
    rw [show removeDotSegmentsPass (state.1, state.2) = .inr result from passed] at tells
    exact returns tells
  · intro state next result passed later
    have tells := removeDotSegmentsPass_tells state.1 state.2
    rw [show removeDotSegmentsPass (state.1, state.2) = .inl next from passed] at tells
    exact goesOn tells later

/-- The loop keeps pieces. -/
theorem removeDotSegmentsLoop_pieces {rest : Str} {output : List Str}
    (aligned : Aligned rest output) : ArePieces (removeDotSegmentsLoop.run (rest, output)) := by
  refine removeDotSegmentsLoop_rule
    (motive := fun rest output result => Aligned rest output → ArePieces result)
    ?_ ?_ rest output aligned
  · -- The last pass leaves pieces, and every other one keeps the rest aligned.
    intro rest output result tells aligned
    exact tells.pieces aligned
  · intro rest later output kept result tells behind aligned
    exact behind (tells.aligned aligned)

/-- A path without dot segments is made of pieces. -/
theorem removeDotSegments_pieces (path : Str) :
    ∃ pieces, ArePieces pieces ∧ removeDotSegments path = pieces.flatten :=
  ⟨_, removeDotSegmentsLoop_pieces ⟨⟨List.forall_mem_nil _, List.forall_mem_nil _⟩, .inl rfl⟩, rfl⟩

/-- One pass of the loop that goes on. -/
theorem removeDotSegmentsLoop_next {rest later : Str} {output kept : List Str}
    (passed : removeDotSegmentsPass (rest, output) = .inl (later, kept)) :
    removeDotSegmentsLoop.run (rest, output) = removeDotSegmentsLoop.run (later, kept) :=
  removeDotSegmentsLoop.run_of_continue passed

/-- Pieces are all kept. -/
theorem removeDotSegmentsLoop_flatten {pieces : List Str} (are : ArePieces pieces)
    (output : List Str) :
    removeDotSegmentsLoop.run (pieces.flatten, output) = output ++ pieces := by
  induction pieces generalizing output with
  | nil =>
    rw [List.append_nil]
    exact removeDotSegmentsLoop.run_of_return rfl
  | cons piece rest ih =>
    have slashed : ∀ other ∈ rest, ∃ body, other = '/' :: body := are.slashed
    -- A piece ends at the slash of the next one, so one pass takes one piece.
    have ends : Stops inSegment rest.flatten := by
      cases rest with
      | nil => rfl
      | cons next others =>
        obtain ⟨body, rfl⟩ := slashed next List.mem_cons_self
        exact stops_slash _
    have later : ArePieces rest :=
      ⟨fun other inside => are.each other (List.mem_cons_of_mem _ inside),
        fun other inside => slashed other (List.mem_of_mem_tail inside)⟩
    rw [List.flatten_cons, removeDotSegmentsLoop_next
      (removeDotSegmentsPass_piece (are.each piece List.mem_cons_self) ends output), ih later,
      List.append_assoc]
    rfl

/-- A path made of pieces stays as it is. -/
theorem removeDotSegments_flatten {pieces : List Str} (are : ArePieces pieces) :
    removeDotSegments pieces.flatten = pieces.flatten := by
  rw [removeDotSegments, removeDotSegmentsLoop_flatten are, List.nil_append]

/-- A path without dot segments stays as it is when they are removed again. -/
theorem removeDotSegments_idempotent (path : Str) :
    removeDotSegments (removeDotSegments path) = removeDotSegments path := by
  obtain ⟨pieces, arePieces, same⟩ := removeDotSegments_pieces path
  rw [same]
  exact removeDotSegments_flatten arePieces

/-- Pieces behind slashes are segments of their own, and so is what stands before them. -/
theorem segments_behind {front : Str} (plain : '/' ∉ front)
    (named : front ≠ ['.'] ∧ front ≠ ['.', '.']) {pieces : List Str}
    (each : ∀ piece ∈ pieces, IsPiece piece) (slashed : ∀ piece ∈ pieces, ∃ body, piece = '/' :: body) :
    ∀ segment ∈ (front ++ pieces.flatten).splitOn '/', segment ≠ ['.'] ∧ segment ≠ ['.', '.'] := by
  induction pieces generalizing front with
  | nil =>
    rw [List.flatten_nil, List.append_nil, List.splitOn_eq_singleton plain]
    exact List.forall_mem_singleton.mpr named
  | cons piece rest ih =>
    -- The slash of the next piece ends the segment.
    obtain ⟨here, behind⟩ := List.forall_mem_cons.mp each
    obtain ⟨⟨body, rfl⟩, others⟩ := List.forall_mem_cons.mp slashed
    rw [List.flatten_cons, List.cons_append, List.splitOn_append_cons_self_of_not_mem plain]
    refine List.forall_mem_cons.mpr ⟨named, ?_⟩
    cases here with
    -- The piece behind it begins a segment that is no dots either.
    | slashed plainBody namedBody => exact ih plainBody namedBody behind others
    | first plain => exact absurd List.mem_cons_self plain

/-- Pieces are cut at slashes into segments that are no dot segments. -/
theorem ArePieces.segments {pieces : List Str} (are : ArePieces pieces) :
    ∀ segment ∈ pieces.flatten.splitOn '/', segment ≠ ['.'] ∧ segment ≠ ['.', '.'] := by
  have nothing : ([] : Str) ≠ ['.'] ∧ ([] : Str) ≠ ['.', '.'] := ⟨by decide, by decide⟩
  cases pieces with
  | nil => exact segments_behind List.not_mem_nil nothing are.each are.slashed
  | cons piece rest =>
    obtain ⟨here, behind⟩ := List.forall_mem_cons.mp are.each
    cases here with
    | slashed plain named =>
      -- Nothing stands before the first slash.
      exact segments_behind List.not_mem_nil nothing are.each
        (List.forall_mem_cons.mpr ⟨⟨_, rfl⟩, are.slashed⟩)
    | first plain named => exact segments_behind plain named behind are.slashed

/-- A text that starts with a slash. -/
def IsSlashed (text : Str) : Prop := ∃ later, text = '/' :: later

/-- Slashed pieces that were kept, with a slashed path behind them or nothing. -/
structure StaysSlashed (rest : Str) (output : List Str) : Prop where
  /-- Every piece is slashed. -/
  each : ∀ piece ∈ output, IsSlashed piece
  /-- Something is there. -/
  some : IsSlashed rest ∨ rest = [] ∧ output ≠ []

/-- What stops a segment is slashed or empty. -/
theorem isSlashed_of_stops {later : Str} (ends : Stops inSegment later) :
    IsSlashed later ∨ later = [] := by
  cases later with
  | nil => exact .inr rfl
  | cons char others =>
    by_cases slash : char = '/'
    · exact .inl ⟨others, by rw [slash]⟩
    · exact absurd ends (not_stops (by simp [inSegment, slash]))

/-- A pass that goes on leaves slashed what was so. -/
theorem PassTells.staysSlashed {rest later : Str} {output kept : List Str}
    (tells : PassTells output rest (.inl (later, kept))) (stays : StaysSlashed rest output) :
    StaysSlashed later kept := by
  cases tells with
  | above | here =>
    -- A path in front of which nothing was kept would start with a dot.
    rcases stays.some with slash | none
    · obtain ⟨_, same⟩ := slash
      cases same
    · cases none.1
  | same => exact ⟨stays.each, .inl ⟨_, rfl⟩⟩
  | up =>
    exact ⟨fun piece inside => stays.each piece (List.dropLast_subset _ inside), .inl ⟨_, rfl⟩⟩
  | @piece piece later isPiece ends =>
    have slashed : IsSlashed piece := by
      rcases stays.some with slash | none
      · obtain ⟨others, same⟩ := slash
        cases isPiece with
        | slashed => exact ⟨_, rfl⟩
        | first plain _ present =>
          obtain ⟨char, more, rfl⟩ := List.exists_cons_of_ne_nil present
          exact ⟨more, by rw [(List.cons.inj same).1]⟩
      · have both := List.append_eq_nil_iff.mp none.1
        cases isPiece with
        | slashed => cases both.1
        | first _ _ present => exact absurd both.1 present
    refine ⟨List.forall_mem_append.mpr ⟨stays.each, List.forall_mem_singleton.mpr slashed⟩, ?_⟩
    rcases isSlashed_of_stops ends with slash | empty
    · exact .inl slash
    · exact .inr ⟨empty, by simp⟩

/-- A pass that returns leaves slashed pieces. -/
theorem PassTells.endsSlashed {rest : Str} {output result : List Str}
    (tells : PassTells output rest (.inr result)) (stays : StaysSlashed rest output) :
    result ≠ [] ∧ ∀ piece ∈ result, IsSlashed piece := by
  have slash : IsSlashed ['/'] := ⟨[], rfl⟩
  cases tells with
  -- At the end of the path something was kept, since the path began with a slash.
  | done =>
    rcases stays.some with slashed | none
    · obtain ⟨_, same⟩ := slashed
      cases same
    · exact ⟨none.2, stays.each⟩
  -- Both rules at the end put a slash behind what was kept.
  | sameLast =>
    exact ⟨by simp, List.forall_mem_append.mpr ⟨stays.each, List.forall_mem_singleton.mpr slash⟩⟩
  | upLast =>
    have before : ∀ piece ∈ output.dropLast, IsSlashed piece := fun piece inside =>
      stays.each piece (List.dropLast_subset _ inside)
    exact ⟨by simp, List.forall_mem_append.mpr ⟨before, List.forall_mem_singleton.mpr slash⟩⟩
  -- A rest that begins with a slash is no dots, and neither is an empty one.
  | dots dots =>
    rcases stays.some with slashed | none
    · obtain ⟨_, rfl⟩ := slashed
      rcases dots with same | same <;> cases same
    · rw [none.1] at dots
      rcases dots with same | same <;> cases same

/-- A slashed path stays slashed without its dot segments. -/
theorem removeDotSegments_slashed {path : Str} (slashed : IsSlashed path) :
    IsSlashed (removeDotSegments path) := by
  have start : StaysSlashed path [] := ⟨List.forall_mem_nil _, .inl slashed⟩
  have ends := removeDotSegmentsLoop_rule (motive := fun rest output result =>
    StaysSlashed rest output → result ≠ [] ∧ ∀ piece ∈ result, IsSlashed piece)
    (fun tells stays => tells.endsSlashed stays)
    (fun tells behind stays => behind (tells.staysSlashed stays)) path [] start
  rw [removeDotSegments]
  -- The first of the pieces is slashed.
  obtain ⟨piece, pieces, same⟩ := List.exists_cons_of_ne_nil ends.1
  rw [same] at ends ⊢
  obtain ⟨later, rfl⟩ := ends.2 piece List.mem_cons_self
  exact ⟨later ++ pieces.flatten, rfl⟩

/-- Dot segments start with a dot. -/
theorem AreDots.dotted {path : Str} (dots : AreDots path) : ∃ later, path = '.' :: later := by
  cases dots with
  | last dots => rcases dots with rfl | rfl <;> exact ⟨_, rfl⟩
  | slash dots => rcases dots with rfl | rfl <;> exact ⟨_, rfl⟩
  | more dots => rcases dots with rfl | rfl <;> exact ⟨_, rfl⟩

/-- A dot segment in front of nothing or of dot segments. -/
theorem AreDots.cons {segment later : Str} (dots : segment = ['.'] ∨ segment = ['.', '.'])
    (behind : later = [] ∨ AreDots later) : AreDots (segment ++ '/' :: later) := by
  rcases behind with rfl | others
  · exact .slash dots
  · exact .more dots others

/-- The loop keeps nothing only of nothing or of dot segments. -/
theorem removeDotSegmentsLoop_eq_nil (path : Str)
    (none : removeDotSegmentsLoop.run (path, []) = []) : path = [] ∨ AreDots path := by
  -- A rest that begins with a slash is neither empty nor of dots.
  have slashless : ∀ {later : Str}, ¬ ('/' :: later = [] ∨ AreDots ('/' :: later)) := by
    intro later either
    rcases either with same | dots
    · cases same
    · obtain ⟨_, same⟩ := dots.dotted
      cases same
  refine (removeDotSegmentsLoop_rule (motive := fun rest output result =>
    result = [] → (rest = [] ∨ AreDots rest) ∧ output = []) ?_ ?_ path [] none).1
  · intro rest output result tells ends
    -- Only two of the last rules keep nothing.
    cases tells with
    | done => exact ⟨.inl rfl, ends⟩
    | sameLast | upLast => simp at ends
    | dots dots => exact ⟨.inr (.last dots), ends⟩
  · intro rest later output kept result tells behind ends
    have before := behind ends
    -- Going back, the dots that a pass dropped are put in front again.
    cases tells with
    | above => exact ⟨.inr (AreDots.cons (.inr rfl) before.1), before.2⟩
    | here => exact ⟨.inr (AreDots.cons (.inl rfl) before.1), before.2⟩
    -- These passes leave a slash in front, of which something is kept.
    | same => exact absurd before.1 slashless
    | up => exact absurd before.1 slashless
    | piece => simp at before

/-- In front of a path a step to the same place, or up, is removed. -/
theorem removeDotSegments_front (segment later : Str)
    (dots : segment = ['.'] ∨ segment = ['.', '.']) :
    removeDotSegments (segment ++ '/' :: later) = removeDotSegments later := by
  rw [removeDotSegments, removeDotSegments]
  have passed : removeDotSegmentsPass (segment ++ '/' :: later, []) = .inl (later, []) := by
    rcases dots with rfl | rfl <;> simp [removeDotSegmentsPass]
  rw [removeDotSegmentsLoop_next passed]

/-- Nothing stays of a path exactly when it is empty or made of dot segments. -/
theorem removeDotSegments_eq_nil (path : Str) :
    removeDotSegments path = [] ↔ path = [] ∨ AreDots path := by
  constructor
  · intro empty
    have aligned : Aligned path [] :=
      ⟨⟨List.forall_mem_nil _, List.forall_mem_nil _⟩, .inl rfl⟩
    have pieces := removeDotSegmentsLoop_pieces aligned
    rw [removeDotSegments, List.flatten_eq_nil_iff] at empty
    -- Pieces are not empty, so without a character there is none.
    refine removeDotSegmentsLoop_eq_nil path (List.eq_nil_iff_forall_not_mem.mpr ?_)
    intro piece inside
    cases pieces.each piece inside with
    | slashed => cases empty _ inside
    | first _ _ present => exact present (empty _ inside)
  · intro either
    rcases either with rfl | dots
    · rfl
    · induction dots with
      | last dots => rcases dots with rfl | rfl <;> rfl
      | slash dots => rw [removeDotSegments_front _ _ dots]; rfl
      | more dots others ih => rw [removeDotSegments_front _ _ dots, ih]

end Uri

end Http11

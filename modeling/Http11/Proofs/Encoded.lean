import Http11.Authority
import Http11.Proofs.DotSegments

/-! Encoded texts: what may be cut out of them, and put together. -/

namespace Http11

/-- Bytes that stand for themselves, and percent signs in front of pairs of bytes. -/
inductive IsTriplets (allowed : UInt8 → Bool) (pair : UInt8 → UInt8 → Bool) : Bytes → Prop where
  /-- There may be none. -/
  | empty : IsTriplets allowed pair []
  /-- A byte that stands for itself. -/
  | plain {byte : UInt8} {rest : Bytes} (kept : allowed byte = true)
    (others : IsTriplets allowed pair rest) : IsTriplets allowed pair (byte :: rest)
  /-- A byte that is encoded. -/
  | percent {high low : UInt8} {rest : Bytes} (digits : pair high low = true)
    (others : IsTriplets allowed pair rest) :
    IsTriplets allowed pair (0x25 :: high :: low :: rest)

/-- Two hexadecimal digits. -/
def isHexPair (high low : UInt8) : Bool := isAsciiHexdigit high && isAsciiHexdigit low

/-- Encoded bytes have two digits behind each percent sign. -/
theorem isEncoded_iff (allowed : UInt8 → Bool) (bytes : Bytes) :
    IsEncoded allowed bytes ↔ IsTriplets allowed isHexPair bytes := by
  constructor
  · intro encoded
    -- Both grammars have the same three rules.
    induction encoded with
    | empty => exact .empty
    | plain kept _ ih => exact .plain kept ih
    | percent digits _ ih => exact .percent (by simp [isHexPair, digits]) ih
  · intro triplets
    induction triplets with
    | empty => exact .empty
    | plain kept _ ih => exact .plain kept ih
    | percent digits _ ih => exact .percent (by simpa [isHexPair] using digits) ih

/-- Triplets with fewer pairs are triplets with more of them. -/
theorem IsTriplets.mono {allowed : UInt8 → Bool} {pair other : UInt8 → UInt8 → Bool}
    (more : ∀ high low, pair high low = true → other high low = true) {bytes : Bytes}
    (triplets : IsTriplets allowed pair bytes) : IsTriplets allowed other bytes := by
  induction triplets with
  | empty => exact .empty
  | plain kept _ ih => exact .plain kept ih
  | percent digits _ ih => exact .percent (more _ _ digits) ih

/-- Triplets may be put together. -/
theorem IsTriplets.append {allowed : UInt8 → Bool} {pair : UInt8 → UInt8 → Bool}
    {front back : Bytes} (first : IsTriplets allowed pair front)
    (second : IsTriplets allowed pair back) : IsTriplets allowed pair (front ++ back) := by
  induction first with
  | empty => exact second
  | plain kept _ ih => exact .plain kept ih
  | percent digits _ ih => exact .percent digits ih

/-- Triplets are cut in front of a byte that is neither a percent sign nor a digit. -/
theorem IsTriplets.split {allowed : UInt8 → Bool} {pair : UInt8 → UInt8 → Bool}
    (hex : ∀ high low, pair high low = true → isHexPair high low = true) {front back : Bytes}
    {byte : UInt8} (other : (isAsciiHexdigit byte || byte == 0x25) = false)
    (triplets : IsTriplets allowed pair (front ++ byte :: back)) :
    IsTriplets allowed pair front ∧ IsTriplets allowed pair (byte :: back) := by
  rw [Bool.or_eq_false_iff, beq_eq_false_iff_ne] at other
  generalize whole : front ++ byte :: back = bytes at triplets
  induction triplets generalizing front with
  | empty => simp at whole
  | @plain first rest kept others ih =>
    cases front with
    | nil =>
      rw [List.nil_append] at whole
      rw [whole]
      exact ⟨.empty, .plain kept others⟩
    | cons first front =>
      rw [List.cons_append, List.cons.injEq] at whole
      obtain ⟨before, behind⟩ := ih whole.2
      rw [← whole.1] at kept
      exact ⟨.plain kept before, behind⟩
  | @percent high low rest digits others ih =>
    have both := hex high low digits
    rw [isHexPair, Bool.and_eq_true] at both
    -- The byte is none of the three that belong together.
    match front, whole with
    | [], whole =>
      rw [List.nil_append, List.cons.injEq] at whole
      exact absurd whole.1 other.2
    | [_], whole =>
      simp only [List.cons_append, List.nil_append, List.cons.injEq] at whole
      rw [whole.2.1, both.1] at other
      cases other.1
    | [_, _], whole =>
      simp only [List.cons_append, List.nil_append, List.cons.injEq] at whole
      rw [whole.2.2.1, both.2] at other
      cases other.1
    | _ :: _ :: _ :: front, whole =>
      simp only [List.cons_append, List.cons.injEq] at whole
      obtain ⟨rfl, rfl, rfl, same⟩ := whole
      obtain ⟨before, behind⟩ := ih same
      exact ⟨.percent digits before, behind⟩

/-- A text whose bytes are triplets. -/
def IsTripletText (allowed : UInt8 → Bool) (pair : UInt8 → UInt8 → Bool) (text : Str) : Prop :=
  IsTriplets allowed pair (Utf8.encode text)

/-- A character at which encoded texts are cut. -/
def isCut (char : Char) : Bool :=
  decide (char.toNat < 0x80) &&
    !(isAsciiHexdigit (UInt8.ofNat char.toNat) || UInt8.ofNat char.toNat == 0x25)

namespace IsTripletText

variable {allowed : UInt8 → Bool} {pair : UInt8 → UInt8 → Bool}

/-- Encoded texts may be put together. -/
theorem append {front back : Str} (first : IsTripletText allowed pair front)
    (second : IsTripletText allowed pair back) : IsTripletText allowed pair (front ++ back) := by
  rw [IsTripletText, Utf8.encode_append]
  exact IsTriplets.append first second

/-- A text with fewer pairs is a text with more of them. -/
theorem mono {other : UInt8 → UInt8 → Bool}
    (more : ∀ high low, pair high low = true → other high low = true) {text : Str}
    (encoded : IsTripletText allowed pair text) : IsTripletText allowed other text :=
  IsTriplets.mono more encoded

/-- All of many encoded texts may be put together. -/
theorem flatten {texts : List Str} (each : ∀ text ∈ texts, IsTripletText allowed pair text) :
    IsTripletText allowed pair texts.flatten := by
  induction texts with
  | nil => exact .empty
  | cons text texts ih =>
    obtain ⟨first, others⟩ := List.forall_mem_cons.mp each
    exact append first (ih others)

/-- A character that stands for itself is an encoded text. -/
theorem single {char : Char} (ascii : char.toNat < 0x80)
    (kept : allowed (UInt8.ofNat char.toNat) = true) : IsTripletText allowed pair [char] := by
  rw [IsTripletText, Utf8.encode_cons, Utf8.encodeChar_ascii ascii]
  exact .plain kept .empty

/-- Behind such a character the rest is an encoded text. -/
theorem tail {char : Char} {back : Str} (cut : isCut char = true)
    (encoded : IsTripletText allowed pair (char :: back)) : IsTripletText allowed pair back := by
  rw [isCut, Bool.and_eq_true, decide_eq_true_eq, Bool.not_eq_true'] at cut
  rw [IsTripletText, Utf8.encode_cons, Utf8.encodeChar_ascii cut.1, List.singleton_append]
    at encoded
  generalize whole : UInt8.ofNat char.toNat :: Utf8.encode back = bytes at encoded
  cases encoded with
  | empty => cases whole
  | plain _ others =>
    rw [IsTripletText, (List.cons.inj whole).2]
    exact others
  | percent =>
    -- The character is no percent sign.
    rw [(List.cons.inj whole).1] at cut
    exact absurd cut.2 (by decide)

section Cuts

variable (hex : ∀ high low, pair high low = true → isHexPair high low = true)

include hex

/-- Encoded texts are cut in front of some characters. -/
theorem split {front back : Str} {char : Char} (cut : isCut char = true)
    (encoded : IsTripletText allowed pair (front ++ char :: back)) :
    IsTripletText allowed pair front ∧ IsTripletText allowed pair (char :: back) := by
  rw [isCut, Bool.and_eq_true, decide_eq_true_eq, Bool.not_eq_true'] at cut
  -- The character is one byte, and none that a percent sign could be followed by.
  have bytes : Utf8.encode (char :: back) = UInt8.ofNat char.toNat :: Utf8.encode back := by
    rw [Utf8.encode_cons, Utf8.encodeChar_ascii cut.1]
    rfl
  rw [IsTripletText, Utf8.encode_append, bytes] at encoded
  rw [IsTripletText, IsTripletText, bytes]
  exact encoded.split hex cut.2

/-- Nothing that a pass takes out of an encoded path breaks it. -/
theorem pass {rest later : Str} {output kept : List Str}
    (tells : Uri.PassTells output rest (.inl (later, kept)))
    (encoded : IsTripletText allowed pair rest)
    (each : ∀ piece ∈ output, IsTripletText allowed pair piece) :
    IsTripletText allowed pair later ∧ ∀ piece ∈ kept, IsTripletText allowed pair piece := by
  have slash : isCut '/' = true := by decide
  have dot : isCut '.' = true := by decide
  -- Each rule of a pass drops whole characters, none of which stands in an escape.
  cases tells with
  | above => exact ⟨tail slash (tail dot (tail dot encoded)), each⟩
  | here => exact ⟨tail slash (tail dot encoded), each⟩
  | same => exact ⟨tail dot (tail slash encoded), each⟩
  | up =>
    exact ⟨tail dot (tail dot (tail slash encoded)),
      fun piece inside => each piece (List.dropLast_subset _ inside)⟩
  -- A piece ends at a slash or at the end of the path, where it can be cut.
  | @piece piece later isPiece ends =>
    have parts : IsTripletText allowed pair piece ∧ IsTripletText allowed pair later := by
      rcases Uri.isSlashed_of_stops ends with slashed | rfl
      · obtain ⟨others, rfl⟩ := slashed
        exact split hex slash encoded
      · rw [List.append_nil] at encoded
        exact ⟨encoded, .empty⟩
    exact ⟨parts.2, List.forall_mem_append.mpr ⟨each, List.forall_mem_singleton.mpr parts.1⟩⟩

/-- An encoded path stays so without its dot segments. -/
theorem removeDotSegments (slashes : allowed 0x2F = true) {path : Str}
    (encoded : IsTripletText allowed pair path) :
    IsTripletText allowed pair (Uri.removeDotSegments path) := by
  have slash : IsTripletText allowed pair ['/'] := single (by decide) slashes
  -- By the rule of the loop: the rest and each piece stay encoded.
  have pieces := Uri.removeDotSegmentsLoop_rule (motive := fun rest output result =>
    IsTripletText allowed pair rest → (∀ piece ∈ output, IsTripletText allowed pair piece) →
      ∀ piece ∈ result, IsTripletText allowed pair piece) ?_ ?_ path [] encoded
      (List.forall_mem_nil _)
  · exact flatten pieces
  · intro rest output result tells encoded each
    have added : ∀ pieces : List Str, (∀ piece ∈ pieces, IsTripletText allowed pair piece) →
        ∀ piece ∈ pieces ++ [['/']], IsTripletText allowed pair piece := fun pieces known =>
      List.forall_mem_append.mpr ⟨known, List.forall_mem_singleton.mpr slash⟩
    cases tells with
    -- At the end of the path some rules still put a slash behind the pieces.
    | done | dots => exact each
    | sameLast => exact added output each
    | upLast =>
      exact added _ fun piece inside => each piece (List.dropLast_subset _ inside)
  · -- Every other pass is covered by its own lemma.
    intro rest later output kept result tells behind encoded each
    obtain ⟨left, known⟩ := pass hex tells encoded each
    exact behind left known

end Cuts

end IsTripletText

end Http11

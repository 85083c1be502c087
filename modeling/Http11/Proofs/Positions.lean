import Http11.AuthParams
import Http11.Proofs.Auth

/-! Positions in the bytes of a text, and the characters that stand behind them. -/

namespace Http11

/-- A character whose bytes all are of some kind. -/
def ofKind (kind : UInt8 → Bool) (char : Char) : Bool := (String.utf8EncodeChar char).all kind

/-- An ASCII character is of a kind if its byte is. -/
theorem ofKind_ascii (kind : UInt8 → Bool) {char : Char} (ascii : char.toNat < 0x80) :
    ofKind kind char = kind (UInt8.ofNat char.toNat) := by
  simp [ofKind, Utf8.encodeChar_ascii ascii]

/-- A text is of some kind if its characters are. -/
theorem encode_all (kind : UInt8 → Bool) (text : Str) :
    (Utf8.encode text).all kind = text.all (ofKind kind) := by
  rw [Utf8.encode, List.all_flatMap]
  rfl

/-- A kind that does not tell apart the bytes of characters past ASCII. -/
def IsNarrow (kind : UInt8 → Bool) (wide : Bool) : Prop :=
  ∀ byte : UInt8, 0x80 ≤ byte.toNat → kind byte = wide

/-- Past ASCII all characters are of a kind, or none are. -/
theorem IsNarrow.ofKind {kind : UInt8 → Bool} {wide : Bool} (narrow : IsNarrow kind wide)
    {char : Char} (high : 0x80 ≤ char.toNat) : Http11.ofKind kind char = wide := by
  have same : ∀ byte ∈ String.utf8EncodeChar char, kind byte = wide := fun byte inside =>
    narrow byte (Utf8.le_of_mem_encodeChar high inside)
  obtain ⟨byte, rest, bytes⟩ := List.exists_cons_of_ne_nil (Utf8.encodeChar_ne_nil char)
  -- There is at least one byte to tell the kind from.
  rw [bytes] at same
  rw [Http11.ofKind, bytes]
  cases wide with
  | true => exact List.all_eq_true.mpr same
  | false => simp [same byte List.mem_cons_self]

/-- Bytes of a kind in front of a text are those of its characters of that kind. -/
theorem takeWhile_encode {kind : UInt8 → Bool} {wide : Bool} (narrow : IsNarrow kind wide)
    (text : Str) : (Utf8.encode text).takeWhile kind =
      Utf8.encode (text.takeWhile (ofKind kind)) := by
  induction text with
  | nil => rfl
  | cons char rest ih =>
    rw [Utf8.encode_cons]
    cases known : ofKind kind char with
    | true =>
      -- All bytes of the character are taken, and the search goes on behind them.
      have all : ∀ byte ∈ String.utf8EncodeChar char, kind byte = true :=
        List.all_eq_true.mp known
      rw [List.takeWhile_append_of_pos all, ih, List.takeWhile_cons_of_pos known, Utf8.encode_cons]
    | false =>
      rw [List.takeWhile_cons_of_neg (by simp [known]), Utf8.encode_nil]
      obtain ⟨byte, others, bytes⟩ :=
        List.exists_cons_of_ne_nil (Utf8.encodeChar_ne_nil char)
      have first : kind byte = false := by
        by_cases high : 0x80 ≤ char.toNat
        · have member : byte ∈ String.utf8EncodeChar char := by rw [bytes]; exact List.mem_cons_self
          rw [narrow byte (Utf8.le_of_mem_encodeChar high member), ← narrow.ofKind high, known]
        · -- An ASCII character is its only byte.
          have ascii := Utf8.encodeChar_ascii (show char.toNat < 0x80 by omega)
          rw [ascii, List.cons.injEq] at bytes
          rw [← bytes.1, ← ofKind_ascii kind (by omega), known]
      rw [bytes, List.cons_append, List.takeWhile_cons_of_neg (by simp [first])]

/-- A position in a text, and what stands behind it. -/
structure At (input : Str) (i : Nat) (back : Str) : Prop where
  /-- In front of it there are that many bytes. -/
  split : ∃ front, input = front ++ back ∧ i = byteLength front

namespace At

variable {input back middle : Str} {i : Nat}

/-- At the start the whole text is behind. -/
theorem start (input : Str) : At input 0 input := ⟨[], rfl, rfl⟩

/-- What stands behind a position are the bytes from there. -/
theorem drop (here : At input i back) : (Utf8.encode input).drop i = Utf8.encode back := by
  obtain ⟨front, rfl, rfl⟩ := here.split
  rw [Utf8.encode_append]
  exact List.drop_left

/-- Nothing is left at the end of the bytes, and only there. -/
theorem ends_iff (here : At input i back) : (Utf8.encode input).length ≤ i ↔ back = [] := by
  rw [← Utf8.encode_eq_nil, ← here.drop, List.drop_eq_nil_iff]

/-- An ASCII byte stands where its character does. -/
theorem byte_iff (here : At input i back) {char : Char} (ascii : char.toNat < 0x80) :
    (Utf8.encode input)[i]? = some (UInt8.ofNat char.toNat) ↔ ∃ rest, back = char :: rest := by
  have first : (Utf8.encode input)[i]? = (Utf8.encode back)[0]? := by
    rw [← here.drop, List.getElem?_drop, Nat.add_zero]
  rw [first]
  constructor
  · intro found
    -- The byte is the first one of the first character.
    cases bytes : Utf8.encode back with
    | nil => simp [bytes] at found
    | cons byte others =>
      rw [bytes, List.getElem?_cons_zero, Option.some.injEq] at found
      cases back with
      | nil => cases bytes
      | cons other rest =>
        have value : (UInt8.ofNat char.toNat).toNat = char.toNat :=
          Utf8.toNat_ofNat_small _ (by omega)
        have same := Utf8.head_of_encode bytes (by rw [found, value]; exact ascii)
        rw [found, value, Char.ofNat_toNat] at same
        exact ⟨rest, by rw [same]⟩
  · intro there
    obtain ⟨rest, rfl⟩ := there
    rw [Utf8.encode_cons, Utf8.encodeChar_ascii ascii]
    rfl

/-- Behind some of the text the rest of it stands. -/
theorem forward (here : At input i (middle ++ back)) : At input (i + byteLength middle) back := by
  obtain ⟨front, rfl, rfl⟩ := here.split
  refine ⟨front ++ middle, (List.append_assoc _ _ _).symm, ?_⟩
  simp [byteLength]

/-- Behind an ASCII character the rest of the text stands. -/
theorem next {char : Char} (here : At input i (char :: back)) (ascii : char.toNat < 0x80) :
    At input (i + 1) back := by
  have behind : At input (i + byteLength [char]) back := @forward input back [char] i here
  have one : byteLength [char] = 1 := by simp [byteLength, Utf8.encodeChar_ascii ascii]
  rwa [one] at behind

/-- The text between two positions is what stands there. -/
theorem slice (here : At input i (middle ++ back)) :
    Http11.slice input i (i + byteLength middle) = some middle := by
  obtain ⟨front, rfl, rfl⟩ := here.split
  have inner : byteLength front + byteLength middle - byteLength front = byteLength middle := by
    omega
  simp only [Http11.slice, splitAtByte_append, inner, Option.bind_eq_bind, Option.bind_some]
  rfl

/-- The text behind a position is what stands there. -/
theorem sliceFrom (here : At input i back) : Http11.sliceFrom input i = some back := by
  obtain ⟨front, rfl, rfl⟩ := here.split
  rw [Http11.sliceFrom, splitAtByte_append]
  rfl

/-- Bytes of a kind are skipped with their characters. -/
theorem skip (here : At input i back) {kind : UInt8 → Bool} {wide : Bool}
    (narrow : IsNarrow kind wide) : skipWhile kind (Utf8.encode input) i =
      i + byteLength (back.takeWhile (ofKind kind)) := by
  rw [skipWhile, here.drop, takeWhile_encode narrow]
  rfl

/-- Behind the bytes of a kind stand the characters behind theirs. -/
theorem skipped (here : At input i back) {kind : UInt8 → Bool} {wide : Bool}
    (narrow : IsNarrow kind wide) :
    At input (skipWhile kind (Utf8.encode input) i) (back.dropWhile (ofKind kind)) := by
  rw [here.skip narrow]
  refine forward ?_
  rwa [List.takeWhile_append_dropWhile]

/-- The bytes of a kind are the text of their characters. -/
theorem slice_skip (here : At input i back) {kind : UInt8 → Bool} {wide : Bool}
    (narrow : IsNarrow kind wide) :
    Http11.slice input i (skipWhile kind (Utf8.encode input) i) =
      some (back.takeWhile (ofKind kind)) := by
  rw [here.skip narrow]
  have parts : At input i (back.takeWhile (ofKind kind) ++ back.dropWhile (ofKind kind)) := by
    rwa [List.takeWhile_append_dropWhile]
  exact parts.slice

end At

end Http11

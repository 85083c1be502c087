import Http11.DigestGrammar
import Http11.Lib.Separating
import Http11.Proofs.Base64
import Http11.Proofs.Date

/-! When dictionaries of digests are read as what they say. -/

namespace Http11

/-- What bytes are written as has no colons and no commas in it. -/
theorem Base64.encode_plain (bytes : Bytes) : ':' ∉ encode bytes ∧ ',' ∉ encode bytes := by
  -- The sixty-four characters and the padding are looked at in turn.
  have each : ∀ char ∈ encode bytes, char ≠ ':' ∧ char ≠ ',' := by
    have alphabet : ∀ val < 64, alphabetChar val ≠ ':' ∧ alphabetChar val ≠ ',' := by
      decide +kernel
    intro char inside
    rw [encode_eq, List.mem_append, List.mem_map] at inside
    rcases inside with ⟨val, member, rfl⟩ | pad
    · exact alphabet val (sextets_lt bytes val member)
    · rw [List.eq_of_mem_replicate pad]
      decide
  exact ⟨fun inside => (each ':' inside).1 rfl, fun inside => (each ',' inside).2 rfl⟩

section Dictionaries

variable {Value : Type} {isValue : Str → Value → Prop}
  {valueParser : Str → Except DigestFieldsError Value}

/-- Values that are written in some way are read by a parser. -/
structure IsReadBy (isValue : Str → Value → Prop)
    (valueParser : Str → Except DigestFieldsError Value) : Prop where
  /-- A value is read as it is written. -/
  read : ∀ text value, isValue text value → valueParser text = .ok value
  /-- It is written without white space around it and without commas. -/
  plain : ∀ text value, isValue text value →
    text ≠ [] ∧ Trimming.IsTrimmed isWhitespace text ∧ ',' ∉ text

/-- A member is read with its key in lower case. -/
theorem IsMember.read (readable : IsReadBy isValue valueParser) {text : Str} {member : Str × Value}
    (written : IsMember isValue text member) :
    parseMember valueParser text = .ok (toAsciiLowercase member.1, member.2) ∧ text ≠ [] ∧
      Trimming.IsTrimmed isWhitespace text ∧ ',' ∉ text := by
  obtain ⟨token, shown, value, rfl⟩ := written
  obtain ⟨filled, trimmed⟩ := isToken_trimmed token
  obtain ⟨present, white, comma⟩ := readable.plain shown member.2 value
  -- The key is a token, so the first equals sign is the one behind it.
  have sign : '=' ∉ member.1 := not_mem_token token (by decide)
  have other : ',' ∉ member.1 := not_mem_token token (by decide)
  have same : trim member.1 = member.1 := trimmed.trim_eq
  refine ⟨?_, by simp, isTrimmed_signed trimmed present white, by simp [other, comma]⟩
  rw [parseMember, splitOnce_append sign]
  dsimp only
  rw [same, if_neg (by simpa using filled), if_neg (by simp [token]),
    readable.read shown member.2 value]

/-- Members with spaces or tabs around them are read from a dictionary, each with its key in lower
case. -/
theorem IsDictionary.read (readable : IsReadBy isValue valueParser) {text : Str}
    {members : List (Str × Value)} (dictionary : IsDictionary isValue text members) :
    parseDictionary text valueParser =
      .ok (members.map fun member => (toAsciiLowercase member.1, member.2)) := by
  obtain ⟨present, parts, written, rfl⟩ := dictionary
  have some : parts ≠ [] := by
    intro none
    rw [none] at written
    cases written
    exact present rfl
  have plain : ∀ part ∈ parts, ',' ∉ part := by
    clear present some
    induction written with
    | nil => exact List.forall_mem_nil _
    | @cons part member parts members first others ih =>
      refine List.forall_mem_cons.mpr ⟨?_, ih⟩
      obtain ⟨before, shown, after, front, back, member, rfl⟩ := first
      have white : ∀ text, IsOwsText text → ',' ∉ text := fun text ows inside =>
        absurd (ows ',' inside) (by decide)
      simp [white before front, white after back, (member.read readable).2.2.2]
  have split : ([','].intercalate parts).splitOn ',' = parts :=
    List.splitOn_intercalate ',' plain some
  -- Each part is trimmed to its member.
  have elements : List.Forall₂ (fun part element => parseMember valueParser part = .ok element)
      ((parts.map trim).filter fun part => !part.isEmpty)
      (members.map fun member => (toAsciiLowercase member.1, member.2)) := by
    clear present some plain split
    induction written with
    | nil => exact .nil
    | @cons part member parts members first others ih =>
      obtain ⟨before, shown, after, front, back, member, rfl⟩ := first
      obtain ⟨read, filled, trimmed, _⟩ := member.read readable
      have same : trim (before ++ (shown ++ after)) = shown :=
        Trimming.trim_framed (fun char inside => isWhitespace_of_ows (front char inside))
          (fun char inside => isWhitespace_of_ows (back char inside)) trimmed
      rw [List.map_cons, same, List.filter_cons_of_pos (by simpa using filled), List.map_cons]
      exact .cons read ih
  have white := Separating.map_trim_splitOn (by decide : isWhitespace ',' = false)
    ([','].intercalate parts)
  change ((trim ([','].intercalate parts)).splitOn ',').map trim = (([','].intercalate parts).splitOn
    ',').map trim at white
  rw [split] at white
  have whole : parseElements trim (parseMember valueParser)
      ((trim ([','].intercalate parts)).splitOn ',') =
        .ok (members.map fun member => (toAsciiLowercase member.1, member.2)) := by
    rw [parseElements_iff, white]
    exact elements
  have filled : ¬ (trim ([','].intercalate parts)).isEmpty = true := by
    intro empty
    rw [List.isEmpty_iff.mp empty] at whole
    -- Nothing has no members.
    have none : parseElements trim (parseMember valueParser) (List.splitOn ',' []) = .ok [] := rfl
    rw [none, Except.ok.injEq] at whole
    exact present (List.map_eq_nil_iff.mp whole.symm)
  rw [parseDictionary, if_neg filled, whole]
  dsimp only
  rw [if_neg (by simpa using present)]

/-- The value of the first member with a key, in upper or lower case. -/
def firstOf (members : List (Str × Value)) (algorithm : Str) : Option Value :=
  ((members.filter fun member => toAsciiLowercase member.1 = toAsciiLowercase algorithm).map
    (·.2)).head?

/-- The first and the last member with a key have the same value, whatever the key is, exactly when
that is so of several members with the same key. -/
theorem firstOf_lastOf (members : List (Str × Value)) :
    (∀ algorithm, firstOf members algorithm = lastOf members algorithm) ↔ KeepsValues members := by
  constructor
  · rintro same front first middle last back rfl keys others
    have here := same first.1
    have unnamed : ∀ list : List (Str × Value), (∀ member ∈ list, member ∈ front ++ back) →
        list.filter (fun member => toAsciiLowercase member.1 = toAsciiLowercase first.1) = [] := by
      intro list inside
      refine List.filter_eq_nil_iff.mpr fun member found => ?_
      simpa using others member (inside member found)
    have before := unnamed front fun member found => List.mem_append_left _ found
    have after := unnamed back fun member found => List.mem_append_right _ found
    rw [firstOf, lastOf, List.filter_append, before, List.nil_append,
      List.filter_cons_of_pos (by simp), List.filter_append, List.filter_cons_of_pos (by simp [keys]),
      after, List.map_cons, List.head?_cons, List.map_append, List.map_cons, List.map_nil,
      ← List.cons_append, List.getLast?_concat] at here
    exact Option.some.inj here
  · intro keeps algorithm
    rw [firstOf, lastOf]
    cases named : members.filter fun member =>
        toAsciiLowercase member.1 = toAsciiLowercase algorithm with
    | nil => rfl
    | cons first others =>
      rcases List.eq_nil_or_concat' others with rfl | ⟨between, last, rfl⟩
      · rfl
      · -- There is a first and a last member with the key, and none around them.
        obtain ⟨front, rest, split, noneFront, isFirst, behind⟩ := List.filter_eq_cons_iff.mp named
        obtain ⟨middle, final, cut, _, ending⟩ := List.filter_eq_append_iff.mp behind
        obtain ⟨skipped, back, cutBack, noneSkipped, isLast, noneBack⟩ :=
          List.filter_eq_cons_iff.mp ending
        rw [decide_eq_true_eq] at isFirst isLast
        have values : first.2 = last.2 := by
          refine keeps front first (middle ++ skipped) last back ?_ (isFirst.trans isLast.symm) ?_
          · rw [split, cut, cutBack]
            simp
          · rw [isFirst]
            refine List.forall_mem_append.mpr ⟨fun member inside => ?_, fun member inside => ?_⟩
            · simpa using noneFront member inside
            · simpa using List.filter_eq_nil_iff.mp noneBack member inside
        rw [List.map_cons, List.head?_cons, List.map_append, List.map_singleton, ← List.cons_append,
          List.getLast?_concat, values]

/-- The first value with a key is the same with keys in lower case. -/
theorem firstOf_lower (members : List (Str × Value)) (algorithm : Str) :
    ((members.map fun member => (toAsciiLowercase member.1, member.2)).find?
      fun member => member.1 = toAsciiLowercase algorithm).map (·.2) = firstOf members algorithm := by
  rw [firstOf, List.find?_map, List.head?_map, List.head?_filter, Option.map_map]
  rfl

/-- Members whose keys are in lower case are read again as they are shown. -/
theorem IsDictionary.shown {members : List (Str × Value)} (present : members ≠ [])
    (tokens : ∀ member ∈ members, isToken member.1 = true) {display : Value → Str}
    (shows : ∀ member ∈ members, isValue (display member.2) member.2) :
    IsDictionary isValue (", ".toList.intercalate (members.map fun member =>
      member.1 ++ '=' :: display member.2)) members := by
  refine ⟨present, Cutting.padded ' ' (members.map fun member : Str × Value =>
    member.1 ++ '=' :: display member.2), ?_, Cutting.intercalate_padded ',' ' ' _⟩
  obtain ⟨first, others, rfl⟩ := List.exists_cons_of_ne_nil present
  obtain ⟨token, behind⟩ := List.forall_mem_cons.mp tokens
  obtain ⟨value, values⟩ := List.forall_mem_cons.mp shows
  rw [List.map_cons, Cutting.padded, List.map_map]
  refine .cons ⟨[], _, [], List.forall_mem_nil _, List.forall_mem_nil _, ⟨token, _, value, rfl⟩,
    by simp⟩ ?_
  -- The other members have a space in front.
  refine List.forall₂_map_left_iff.mpr (List.forall₂_same.mpr fun member inside => ?_)
  exact ⟨[' '], _, [], List.forall_mem_singleton.mpr (by decide), List.forall_mem_nil _,
    ⟨behind member inside, _, values member inside, rfl⟩, by simp⟩

/-- A field that is made of the members of a dictionary, and asked and shown as that. -/
structure IsDictionaryField {Field : Type} (parse : Str → Except DigestFieldsError Field)
    (get : Field → Str → Option Value) (show' : Field → Str)
    (valueParser : Str → Except DigestFieldsError Value) (display : Value → Str)
    (make : List (Str × Value) → Field) : Prop where
  /-- The field is parsed as the dictionary. -/
  parses : ∀ text, parse text = (parseDictionary text valueParser).map make
  /-- It is asked for the first member. -/
  gets : ∀ members algorithm, get (make members) algorithm =
    (members.find? fun member => member.1 = toAsciiLowercase algorithm).map (·.2)
  /-- It is shown as its members. -/
  shows : ∀ members, show' (make members) = ", ".toList.intercalate (members.map fun member =>
    member.1 ++ '=' :: display member.2)

/-- A field is read as the dictionary of its members exactly when the first and the last of several
members with the same key have the same value. -/
theorem IsDictionaryField.reads {Field : Type} {parse : Str → Except DigestFieldsError Field}
    {get : Field → Str → Option Value} {show' : Field → Str} {display : Value → Str}
    {make : List (Str × Value) → Field} (readable : IsReadBy isValue valueParser)
    (field : IsDictionaryField parse get show' valueParser display make)
    {text : Str} {members : List (Str × Value)} (dictionary : IsDictionary isValue text members)
    (shown : ∀ member ∈ members, isValue (display member.2) member.2) :
    ReadsDictionary parse get show' text members ↔ KeepsValues members := by
  have parsed : parse text =
      .ok (make (members.map fun member => (toAsciiLowercase member.1, member.2))) := by
    rw [field.parses, dictionary.read readable]
    rfl
  have gets : ∀ algorithm, get (make (members.map fun member =>
      (toAsciiLowercase member.1, member.2))) algorithm = firstOf members algorithm := by
    intro algorithm
    rw [field.gets, firstOf_lower]
  -- The field is the same when it is parsed again, since its keys are in lower case already.
  have again : parse (show' (make (members.map fun member =>
      (toAsciiLowercase member.1, member.2)))) =
      .ok (make (members.map fun member => (toAsciiLowercase member.1, member.2))) := by
    have tokens : ∀ member ∈ members.map fun member => (toAsciiLowercase member.1, member.2),
        isToken member.1 = true := by
      refine List.forall_mem_map.mpr fun member inside => ?_
      obtain ⟨parts, written, _⟩ := dictionary.written
      obtain ⟨part, _, before, shown, after, _, _, ⟨token, _⟩, _⟩ :=
        mem_of_forall₂ written member inside
      exact isToken_lowercase token
    have lower : IsDictionary isValue _ _ := IsDictionary.shown (by simpa using dictionary.present)
      tokens (List.forall_mem_map.mpr shown)
    rw [field.shows, field.parses, lower.read readable, List.map_map]
    refine congrArg (fun members => Except.ok (make members)) (List.map_congr_left fun member _ => ?_)
    simp [toAsciiLowercase_idempotent]
  rw [← firstOf_lastOf]
  constructor
  · intro ⟨found, same, values, _⟩ algorithm
    rw [parsed] at same
    cases same
    rw [← gets, values]
  · intro values
    exact ⟨_, parsed, fun algorithm => (gets algorithm).trans (values algorithm), again⟩

end Dictionaries

/-- Digests are read as they are written. -/
theorem digests_readable : IsReadBy IsDigestText parseByteSequence where
  read := by
    rintro text value rfl
    obtain ⟨colon, _⟩ := Base64.encode_plain value.bytes
    -- Colons stand at both ends, so there is nothing to trim.
    have around : Trimming.IsTrimmed isWhitespace [':'] := Trimming.isTrimmed_of_none (by decide +kernel)
    have same : trim (':' :: (Base64.encode value.bytes ++ [':'])) =
        ':' :: (Base64.encode value.bytes ++ [':']) :=
      (Trimming.isTrimmed_append (Base64.encode value.bytes) (List.cons_ne_nil _ _)
        (List.cons_ne_nil _ _) around around).trim_eq
    have nothing : ¬ (!(trim []).isEmpty) = true := by decide
    rw [parseByteSequence, same]
    split
    · -- Behind the opening colon the text goes on to the next one, which closes it.
      rename_i rest first
      rw [← (List.cons.inj first).2, splitOnce_append colon]
      dsimp only
      rw [if_neg nothing, Base64.decode_encode]
    · rename_i other
      exact absurd rfl (other _)
  plain := by
    rintro text value rfl
    obtain ⟨_, comma⟩ := Base64.encode_plain value.bytes
    have around : Trimming.IsTrimmed isWhitespace [':'] := Trimming.isTrimmed_of_none (by decide +kernel)
    exact ⟨by simp, Trimming.isTrimmed_append (Base64.encode value.bytes) (List.cons_ne_nil _ _)
      (List.cons_ne_nil _ _) around around, by simp [comma]⟩

/-- Weights are read as they are written. -/
theorem weights_readable : IsReadBy IsWeightText parsePreference where
  read := by
    intro text weight written
    obtain ⟨filled, white, _⟩ := isDigits_plain written.digits
    have same : trim text = text := white.trim_eq
    have all : text.all Char.isDigit = true := List.all_eq_true.mpr written.digits.2
    have small : weight.toNat ≤ 10 := written.small
    -- The digits are those of a number below eleven, which fits into eight bits.
    have read : parseU8 text = some weight := by
      have number : Numerals.read 10 255 text = some weight.toNat :=
        (Numerals.read_iff (by decide)).mpr ⟨text, .inl rfl, filled,
          (areDigits_iff text).mpr written.digits.2, written.same, by omega⟩
      rw [parseU8, number, Option.map_some, UInt8.ofNat_toNat]
    have bound : ¬ weight > 10 := UInt8.not_lt.mpr written.small
    rw [parsePreference, same, if_neg (by simpa using filled), if_neg (by simp [all]), read]
    exact if_neg bound
  plain := by
    intro text weight written
    obtain ⟨filled, white, comma, _⟩ := isDigits_plain written.digits
    exact ⟨filled, white, comma⟩

/-- The weights of a dictionary may be shown as they are. -/
theorem weight_shown {weight : UInt8} (small : weight ≤ 10) :
    IsWeightText (Numerals.write 10 weight.toNat) weight := by
  obtain ⟨digits, value⟩ := isDigits_write weight.toNat
  exact ⟨digits, value, small⟩

/-- The entries of a dictionary of digests. -/
def digestEntries (members : List (Str × DigestValue)) : List DigestEntry :=
  members.map fun (algorithm, value) => { algorithm, value }

/-- The entries of a dictionary of weights. -/
def preferenceEntries (members : List (Str × UInt8)) : List DigestPreference :=
  members.map fun (algorithm, weight) => { algorithm, weight }

/-- The first entry of an algorithm is that of the first member. -/
theorem getDigest_entries (members : List (Str × DigestValue)) (algorithm : Str) :
    getDigest (digestEntries members) algorithm =
      (members.find? fun member => member.1 = toAsciiLowercase algorithm).map (·.2) := by
  rw [getDigest, digestEntries, List.find?_map, Option.map_map]
  rfl

/-- The first entry of an algorithm is that of the first member. -/
theorem getWeight_entries (members : List (Str × UInt8)) (algorithm : Str) :
    getWeight (preferenceEntries members) algorithm =
      (members.find? fun member => member.1 = toAsciiLowercase algorithm).map (·.2) := by
  rw [getWeight, preferenceEntries, List.find?_map, Option.map_map]
  rfl

/-- Entries are shown as their members. -/
theorem display_entries (members : List (Str × DigestValue)) :
    ", ".toList.intercalate ((digestEntries members).map DigestEntry.display) =
      ", ".toList.intercalate (members.map fun member => member.1 ++ '=' :: member.2.display) := by
  rw [digestEntries, List.map_map]
  rfl

/-- Entries are shown as their members. -/
theorem display_preferences (members : List (Str × UInt8)) :
    ", ".toList.intercalate ((preferenceEntries members).map DigestPreference.display) =
      ", ".toList.intercalate (members.map fun member =>
        member.1 ++ '=' :: Numerals.write 10 member.2.toNat) := by
  rw [preferenceEntries, List.map_map]
  rfl

/-- A field of digests is read as the dictionary of its members exactly when the first and the last
of several members with the same key have the same value, and so is a field of weights. -/
theorem dictionaries_read (text : Str) :
    (∀ members, IsDictionary IsDigestText text members →
      (ReadsDictionary ContentDigest.parse ContentDigest.get ContentDigest.display text members ↔
        KeepsValues members) ∧
      (ReadsDictionary ReprDigest.parse ReprDigest.get ReprDigest.display text members ↔
        KeepsValues members)) ∧
    ∀ members, IsDictionary IsWeightText text members →
      (ReadsDictionary WantContentDigest.parse WantContentDigest.get WantContentDigest.display text
        members ↔ KeepsValues members) ∧
      (ReadsDictionary WantReprDigest.parse WantReprDigest.get WantReprDigest.display text
        members ↔ KeepsValues members) := by
  constructor
  · intro members dictionary
    -- A digest is written in one way only.
    have shown : ∀ member ∈ members, IsDigestText member.2.display member.2 := fun _ _ => rfl
    have content : IsDictionaryField ContentDigest.parse ContentDigest.get ContentDigest.display
        parseByteSequence DigestValue.display fun members => ⟨digestEntries members⟩ := by
      refine ⟨fun text => ?_, fun members algorithm => getDigest_entries members algorithm,
        fun members => display_entries members⟩
      rw [ContentDigest.parse, parseDigestDictionary]
      cases parseDictionary text parseByteSequence <;> rfl
    have repr : IsDictionaryField ReprDigest.parse ReprDigest.get ReprDigest.display
        parseByteSequence DigestValue.display fun members => ⟨digestEntries members⟩ := by
      refine ⟨fun text => ?_, fun members algorithm => getDigest_entries members algorithm,
        fun members => display_entries members⟩
      rw [ReprDigest.parse, parseDigestDictionary]
      cases parseDictionary text parseByteSequence <;> rfl
    exact ⟨content.reads digests_readable dictionary shown,
      repr.reads digests_readable dictionary shown⟩
  · intro members dictionary
    have shown : ∀ member ∈ members, IsWeightText (Numerals.write 10 member.2.toNat) member.2 := by
      intro member inside
      obtain ⟨parts, written, _⟩ := dictionary.written
      -- A weight may have been written with zeros in front, but it is small.
      obtain ⟨part, _, before, shown, after, _, _, ⟨_, _, weight, _⟩, _⟩ :=
        mem_of_forall₂ written member inside
      exact weight_shown weight.small
    have content : IsDictionaryField WantContentDigest.parse WantContentDigest.get
        WantContentDigest.display parsePreference (fun weight => Numerals.write 10 weight.toNat)
        fun members => ⟨preferenceEntries members⟩ := by
      refine ⟨fun text => ?_, fun members algorithm => getWeight_entries members algorithm,
        fun members => display_preferences members⟩
      rw [WantContentDigest.parse, parsePreferenceDictionary]
      cases parseDictionary text parsePreference <;> rfl
    have repr : IsDictionaryField WantReprDigest.parse WantReprDigest.get
        WantReprDigest.display parsePreference (fun weight => Numerals.write 10 weight.toNat)
        fun members => ⟨preferenceEntries members⟩ := by
      refine ⟨fun text => ?_, fun members algorithm => getWeight_entries members algorithm,
        fun members => display_preferences members⟩
      rw [WantReprDigest.parse, parsePreferenceDictionary]
      cases parseDictionary text parsePreference <;> rfl
    exact ⟨content.reads weights_readable dictionary shown,
      repr.reads weights_readable dictionary shown⟩

/-- Members that agree wherever their keys are the same keep their values. -/
theorem keepsValues_of_agree {Value : Type} {members : List (Str × Value)}
    (agree : ∀ first ∈ members, ∀ last ∈ members,
      toAsciiLowercase first.1 = toAsciiLowercase last.1 → first.2 = last.2) :
    KeepsValues members := by
  rintro front first middle last back rfl same _
  exact agree first (by simp) last (by simp) same

/-- A key is repeated in upper case with the same digest or weight, behind another member. -/
theorem dictionaries_read_repeated :
    ReadsDictionary ContentDigest.parse ContentDigest.get ContentDigest.display
      "a=:YWJj:, b=:eHl6:\t,A=:YWJj:".toList [("a".toList, ⟨[0x61, 0x62, 0x63]⟩),
        ("b".toList, ⟨[0x78, 0x79, 0x7A]⟩), ("A".toList, ⟨[0x61, 0x62, 0x63]⟩)] ∧
    ReadsDictionary WantReprDigest.parse WantReprDigest.get WantReprDigest.display
      "a=3 ,b=10,\tA=3".toList [("a".toList, 3), ("b".toList, 10), ("A".toList, 3)] := by
  -- What stands around the members is nothing, a space or a tab.
  have bare : IsOwsText [] := List.forall_mem_nil _
  have space : IsOwsText [' '] := List.forall_mem_singleton.mpr rfl
  have tab : IsOwsText ['\t'] := List.forall_mem_singleton.mpr rfl
  have digest : IsDictionary IsDigestText "a=:YWJj:, b=:eHl6:\t,A=:YWJj:".toList
      [("a".toList, ⟨[0x61, 0x62, 0x63]⟩), ("b".toList, ⟨[0x78, 0x79, 0x7A]⟩),
        ("A".toList, ⟨[0x61, 0x62, 0x63]⟩)] := by
    refine ⟨List.cons_ne_nil _ _, ["a=:YWJj:".toList, " b=:eHl6:\t".toList, "A=:YWJj:".toList],
      .cons ⟨[], "a=:YWJj:".toList, [], bare, bare, ?_, by decide⟩
        (.cons ⟨[' '], "b=:eHl6:".toList, ['\t'], space, tab, ?_, by decide⟩
          (.cons ⟨[], "A=:YWJj:".toList, [], bare, bare, ?_, by decide⟩ .nil)), by decide⟩
    · exact ⟨by decide, ":YWJj:".toList, (by decide : _ = ':' :: (Base64.encode _ ++ [':'])), rfl⟩
    · exact ⟨by decide, ":eHl6:".toList, (by decide : _ = ':' :: (Base64.encode _ ++ [':'])), rfl⟩
    · exact ⟨by decide, ":YWJj:".toList, (by decide : _ = ':' :: (Base64.encode _ ++ [':'])), rfl⟩
  have weight : IsDictionary IsWeightText "a=3 ,b=10,\tA=3".toList
      [("a".toList, 3), ("b".toList, 10), ("A".toList, 3)] := by
    refine ⟨List.cons_ne_nil _ _, ["a=3 ".toList, "b=10".toList, "\tA=3".toList],
      .cons ⟨[], "a=3".toList, [' '], bare, space, ?_, by decide⟩
        (.cons ⟨[], "b=10".toList, [], bare, bare, ?_, by decide⟩
          (.cons ⟨['\t'], "A=3".toList, [], tab, bare, ?_, by decide⟩ .nil)), by decide⟩
    · exact ⟨by decide, "3".toList, ⟨⟨by decide, by decide⟩, by decide, by decide⟩, rfl⟩
    · exact ⟨by decide, "10".toList, ⟨⟨by decide, by decide⟩, by decide, by decide⟩, rfl⟩
    · exact ⟨by decide, "3".toList, ⟨⟨by decide, by decide⟩, by decide, by decide⟩, rfl⟩
  exact ⟨((dictionaries_read _).1 _ digest).1.mpr (keepsValues_of_agree (by decide)),
    ((dictionaries_read _).2 _ weight).2.mpr (keepsValues_of_agree (by decide))⟩

/-- The first of two weights of the same algorithm is found. -/
theorem last_weight_lost : ¬ ∀ text members, IsDictionary IsWeightText text members →
    ReadsDictionary WantContentDigest.parse WantContentDigest.get WantContentDigest.display text
      members := by
  intro reads
  have dictionary : IsDictionary IsWeightText "a=1,A=2".toList [("a".toList, 1), ("A".toList, 2)] := by
    refine ⟨List.cons_ne_nil _ _, ["a=1".toList, "A=2".toList], ?_, by decide⟩
    refine .cons ⟨[], _, [], List.forall_mem_nil _, List.forall_mem_nil _, ⟨by decide, "1".toList,
      ⟨⟨by decide, by decide +kernel⟩, by decide, by decide⟩, rfl⟩, by decide⟩ (.cons ⟨[], _, [],
      List.forall_mem_nil _, List.forall_mem_nil _, ⟨by decide, "2".toList,
      ⟨⟨by decide, by decide +kernel⟩, by decide, by decide⟩, rfl⟩, by decide⟩ .nil)
  -- The field finds the first of the two, the dictionary means the last.
  obtain ⟨field, parsed, gets, _⟩ := reads _ _ dictionary
  have found : (WantContentDigest.parse "a=1,A=2".toList).map (·.get "a".toList) = .ok (some 1) := by
    decide
  have last : lastOf [("a".toList, (1 : UInt8)), ("A".toList, 2)] "a".toList = some 2 := by
    decide
  rw [parsed] at found
  have same := (Except.ok.inj found).symm.trans ((gets _).trans last)
  cases same

end Http11

import Http11.Proofs.CacheHeader

/-! Directives of caches are the same when they are parsed again. -/

namespace Http11

/-- The flags in the order in which they are written. -/
def CacheFlag.all : List CacheFlag :=
  [.noCache, .noStore, .noTransform, .onlyIfCached, .mustRevalidate, .proxyRevalidate,
    .mustUnderstand, .isPublic, .isPrivate, .isImmutable]

/-- The directives with seconds in the order in which they are written. -/
def CacheAge.all : List CacheAge :=
  [.maxAge, .sMaxage, .maxStale, .minFresh, .staleWhileRevalidate, .staleIfError]

namespace CacheControl

/-- Directives are the same whose flags and seconds are. -/
theorem ext_fields {cc other : CacheControl} (flags : ∀ flag, cc.flag flag = other.flag flag)
    (seconds : ∀ age, cc.seconds age = other.seconds age) : cc = other := by
  -- Sixteen fields, six of seconds and ten flags.
  obtain ⟨_, _, _, _, _, _, _, _, _, _, _, _, _, _, _, _⟩ := cc
  obtain ⟨_, _, _, _, _, _, _, _, _, _, _, _, _, _, _, _⟩ := other
  cases seconds .maxAge
  cases seconds .sMaxage
  cases seconds .maxStale
  cases seconds .minFresh
  cases seconds .staleWhileRevalidate
  cases seconds .staleIfError
  cases flags .noCache
  cases flags .noStore
  cases flags .noTransform
  cases flags .onlyIfCached
  cases flags .mustRevalidate
  cases flags .proxyRevalidate
  cases flags .mustUnderstand
  cases flags .isPublic
  cases flags .isPrivate
  cases flags .isImmutable
  rfl

/-- A directive with seconds as it is written. -/
def agePart (age : CacheAge) (number : UInt64) : Str :=
  if age = .maxStale ∧ number = UInt64.ofNat u64Max then age.name
  else age.name ++ '=' :: Numerals.write 10 number.toNat

/-- Seconds are written behind their name. -/
theorem agePart_limited {age : CacheAge} (other : age ≠ .maxStale) (label : Str)
    (same : age.name ++ ['='] = label) :
    agePart age = fun number => label ++ Numerals.write 10 number.toNat := by
  funext number
  rw [agePart, if_neg fun both => other both.1, ← same]
  simp

/-- Seconds without a limit are written as their name only. -/
theorem agePart_stale : agePart .maxStale = fun number =>
    if number = UInt64.ofNat u64Max then "max-stale".toList
    else "max-stale=".toList ++ Numerals.write 10 number.toNat := by
  funext number
  exact if_congr (and_iff_right rfl) rfl rfl

/-- What is written are the seconds and the flags that are set. -/
theorem parts_eq (cc : CacheControl) : cc.parts =
    (CacheAge.all.flatMap fun age => ((cc.seconds age).map (agePart age)).toList) ++
      CacheFlag.all.flatMap fun flag => if cc.flag flag then [flag.name] else [] := by
  -- Only the seconds without a limit are written in two ways.
  have maxAge : agePart .maxAge = _ := agePart_limited (by decide) "max-age=".toList rfl
  have sMaxage : agePart .sMaxage = _ := agePart_limited (by decide) "s-maxage=".toList rfl
  have minFresh : agePart .minFresh = _ := agePart_limited (by decide) "min-fresh=".toList rfl
  have staleWhileRevalidate : agePart .staleWhileRevalidate = _ :=
    agePart_limited (by decide) "stale-while-revalidate=".toList rfl
  have staleIfError : agePart .staleIfError = _ :=
    agePart_limited (by decide) "stale-if-error=".toList rfl
  simp only [CacheAge.all, CacheFlag.all, List.flatMap_cons, List.flatMap_nil, List.append_nil,
    ← List.append_assoc]
  rw [maxAge, sMaxage, agePart_stale, minFresh, staleWhileRevalidate, staleIfError]
  rfl

end CacheControl

/-- The name of a flag is in lower case, without white space around it and equals signs. -/
theorem CacheFlag.name_plain (flag : CacheFlag) :
    splitOnce '=' (trim flag.name) = none ∧ toLowercase (trim flag.name) = flag.name := by
  cases flag <;> decide +kernel

/-- The name of a flag asks for that flag and for nothing else. -/
theorem asks_flag (flag : CacheFlag) : (∀ other, asksFlag other flag.name = decide (flag = other)) ∧
    ∀ age, asksSeconds age flag.name = none := by
  obtain ⟨split, lower⟩ := flag.name_plain
  refine ⟨fun other => ?_, fun age => ?_⟩
  · -- Two flags have the same name only if they are the same.
    rw [asksFlag, split]
    dsimp only
    rw [lower]
    exact decide_eq_decide.mpr ⟨CacheFlag.name_injective, congrArg CacheFlag.name⟩
  · -- Seconds have other names than flags.
    rw [asksSeconds, split]
    dsimp only
    rw [lower, if_neg fun both => flag.name_ne age both.2]

/-- The name of seconds without a limit asks for these and for nothing else. -/
theorem asks_stale : (∀ flag, asksFlag flag CacheAge.maxStale.name = false) ∧
    (∀ age, asksSeconds age CacheAge.maxStale.name =
      if age = .maxStale then some (UInt64.ofNat u64Max) else none) ∧
    splitOnce '=' (trim CacheAge.maxStale.name) = none := by
  have split : splitOnce '=' (trim CacheAge.maxStale.name) = none := by decide +kernel
  have lower : toLowercase (trim CacheAge.maxStale.name) = CacheAge.maxStale.name := by
    decide +kernel
  refine ⟨fun flag => ?_, fun age => ?_, split⟩
  · -- The name alone raises no flag.
    rw [asksFlag, split]
    dsimp only
    rw [lower]
    exact decide_eq_false (flag.name_ne .maxStale).symm
  · -- It asks for the largest number of seconds, and for no others.
    rw [asksSeconds, split]
    dsimp only
    rw [lower]
    exact if_congr (and_iff_left_of_imp fun same => same ▸ rfl) rfl rfl

/-- A flag and seconds without a limit are written as their names. -/
example : ({ CacheControl.new with noStore := true, maxStale := some (UInt64.ofNat u64Max) } :
    CacheControl).display = "max-stale, no-store".toList := by decide +kernel

/-- A number is that of the digits that it is written with. -/
theorem deltaSeconds_write (number : UInt64) :
    IsDigits (Numerals.write 10 number.toNat) ∧
      deltaSeconds (Numerals.write 10 number.toNat) = number := by
  have fits : number.toNat ≤ u64Max := Nat.le_of_lt_succ number.toNat_lt
  obtain ⟨digits, value⟩ := isDigits_write number.toNat
  exact ⟨digits, by rw [deltaSeconds, value, if_pos fits, UInt64.ofNat_toNat]⟩

/-- Seconds that are written behind their name ask for these and for nothing else. -/
theorem asks_seconds (age : CacheAge) (number : UInt64) :
    (∀ flag, asksFlag flag (age.name ++ '=' :: Numerals.write 10 number.toNat) = false) ∧
    (∀ other, asksSeconds other (age.name ++ '=' :: Numerals.write 10 number.toNat) =
      if other = age then some number else none) ∧
    IsAccepted (age.name ++ '=' :: Numerals.write 10 number.toNat) := by
  obtain ⟨digits, value⟩ := deltaSeconds_write number
  have token : isToken age.name = true ∧ toAsciiLowercase age.name = age.name := by
    cases age <;> decide +kernel
  have valid : IsDirective ⟨age.name, some (Numerals.write 10 number.toNat)⟩ :=
    .seconds token.1 age token.2 digits
  -- What is written is a directive of the grammar, so what it asks for is known.
  obtain ⟨first, split, flags, silent, seconds⟩ := valid.first_part
  obtain ⟨_, alone⟩ := seconds age token.2
  obtain ⟨_, white, _, quote⟩ := isDigits_plain digits
  obtain ⟨_, trimmed⟩ := isToken_trimmed token.1
  -- A number has no comma, so the directive is the first part and the only one.
  have whole : first = age.name ++ '=' :: Numerals.write 10 number.toNat := by
    have joined : [','].intercalate
        ((Directive.text ⟨age.name, some (Numerals.write 10 number.toNat)⟩).splitOn ',') = _ :=
      List.intercalate_splitOn ','
    rw [split, alone, List.intercalate_singleton] at joined
    exact joined
  rw [whole] at flags silent seconds
  refine ⟨fun flag => ?_, fun other => ?_, fun name argument cut => ?_⟩
  · -- The name of seconds is no name of a flag.
    rw [← Bool.not_eq_true, flags]
    exact fun named => flag.name_ne age (named.symm.trans token.2)
  · by_cases same : other = age
    · rw [if_pos same, same, (seconds age token.2).1, Option.map_some, value]
    · rw [if_neg same]
      exact silent other fun named => same (CacheAge.name_injective (named.symm.trans token.2))
  · -- Cut at the sign, the argument is the digits again.
    have same : trim (age.name ++ '=' :: Numerals.write 10 number.toNat) = _ :=
      (isTrimmed_signed trimmed digits.1 white).trim_eq
    have sign : '=' ∉ age.name := not_mem_token token.1 (by decide +kernel)
    rw [same, splitOnce_append sign] at cut
    cases cut
    have alone : trim (Numerals.write 10 number.toNat) = _ := white.trim_eq
    rw [alone]
    exact ⟨_, stripQuotes_plain quote, fun _ _ => digits⟩

namespace CacheControl

/-- A part of seconds asks for these and for nothing else. -/
theorem asks_agePart (age : CacheAge) (number : UInt64) :
    (∀ flag, asksFlag flag (agePart age number) = false) ∧
    (∀ other, asksSeconds other (agePart age number) = if other = age then some number else none) ∧
    IsAccepted (agePart age number) ∧ agePart age number ≠ [] ∧
    Trimming.IsTrimmed isWhitespace (agePart age number) ∧ ',' ∉ agePart age number := by
  have plain : ∀ age : CacheAge, isToken age.name = true ∧ ',' ∉ age.name := by
    intro age
    cases age <;> decide +kernel
  obtain ⟨token, comma⟩ := plain age
  -- The seconds without a limit are written as their name alone.
  obtain ⟨filled, trimmed⟩ := isToken_trimmed token
  unfold agePart
  split
  · rename_i stale
    obtain ⟨rfl, rfl⟩ := stale
    obtain ⟨flags, seconds, split⟩ := asks_stale
    refine ⟨flags, seconds, fun name value same => ?_, filled, trimmed, comma⟩
    rw [split] at same
    cases same
  · -- Other seconds are written with their digits.
    obtain ⟨flags, seconds, accepted⟩ := asks_seconds age number
    obtain ⟨present, white, others, _⟩ := isDigits_plain (deltaSeconds_write number).1
    exact ⟨flags, seconds, accepted, by simp, isTrimmed_signed trimmed present white,
      by simp [comma, others]⟩

/-- The parts are accepted and found again between commas. -/
theorem parts_plain (cc : CacheControl) : ∀ part ∈ cc.parts,
    IsAccepted part ∧ part ≠ [] ∧ Trimming.IsTrimmed isWhitespace part ∧ ',' ∉ part := by
  intro part inside
  rw [parts_eq, List.mem_append, List.mem_flatMap, List.mem_flatMap] at inside
  -- A part is of some seconds or the name of a flag.
  rcases inside with ⟨age, _, member⟩ | ⟨flag, _, member⟩
  · rw [Option.mem_toList, Option.map_eq_some_iff] at member
    obtain ⟨number, _, rfl⟩ := member
    exact (asks_agePart age number).2.2
  · split at member
    · rw [List.mem_singleton.mp member]
      have token : isToken flag.name = true ∧ ',' ∉ flag.name := by cases flag <;> decide +kernel
      obtain ⟨filled, trimmed⟩ := isToken_trimmed token.1
      refine ⟨fun name value same => ?_, filled, trimmed, token.2⟩
      rw [flag.name_plain.1] at same
      cases same
    · cases member

/-- The parts ask for the flags that are set. -/
theorem any_parts (cc : CacheControl) (flag : CacheFlag) :
    cc.parts.any (asksFlag flag) = cc.flag flag := by
  rw [Bool.eq_iff_iff, List.any_eq_true]
  constructor
  · -- A part that asks for the flag is its name, which is written only if the flag is set.
    intro ⟨part, inside, asked⟩
    rw [parts_eq, List.mem_append, List.mem_flatMap, List.mem_flatMap] at inside
    rcases inside with ⟨age, _, member⟩ | ⟨other, _, member⟩
    · rw [Option.mem_toList, Option.map_eq_some_iff] at member
      obtain ⟨number, _, rfl⟩ := member
      rw [(asks_agePart age number).1] at asked
      cases asked
    · split at member
      · rename_i set
        rw [List.mem_singleton.mp member, (asks_flag other).1, decide_eq_true_eq] at asked
        rw [← asked]
        exact set
      · cases member
  · -- A set flag is written as its name, and that asks for it.
    intro set
    refine ⟨flag.name, ?_, by rw [(asks_flag flag).1, decide_eq_true_eq]⟩
    rw [parts_eq, List.mem_append, List.mem_flatMap, List.mem_flatMap]
    refine .inr ⟨flag, by cases flag <;> decide, ?_⟩
    rw [if_pos set]
    exact List.mem_singleton_self _

/-- The parts ask for the seconds that are set. -/
theorem filterMap_parts (cc : CacheControl) (age : CacheAge) :
    (cc.parts.filterMap (asksSeconds age)).getLast? = cc.seconds age := by
  have flags : (CacheFlag.all.flatMap fun flag => if cc.flag flag then [flag.name] else []).filterMap
      (asksSeconds age) = [] := by
    rw [List.filterMap_eq_nil_iff]
    intro part inside
    obtain ⟨flag, _, member⟩ := List.mem_flatMap.mp inside
    split at member
    · rw [List.mem_singleton.mp member]
      exact (asks_flag flag).2 age
    · cases member
  have each : ∀ other, ((cc.seconds other).map (agePart other)).toList.filterMap (asksSeconds age) =
      if age = other then (cc.seconds age).toList else [] := by
    intro other
    cases set : cc.seconds other with
    | none =>
      split
      · rename_i same
        rw [same, set]
        rfl
      · rfl
    | some number =>
      rw [Option.map_some, Option.toList_some, List.filterMap_cons, (asks_agePart other number).2.1]
      split
      · rename_i silent
        split at silent
        · cases silent
        · rename_i differ
          rw [if_neg differ, List.filterMap_nil]
      · rename_i value asked
        split at asked
        · rename_i same
          cases asked
          rw [if_pos same, same, set]
          rfl
        · cases asked
  rw [parts_eq, List.filterMap_append, flags, List.append_nil, List.filterMap_flatMap]
  simp only [each]
  -- One of them is the directive, and the others are not.
  have alone : (CacheAge.all.flatMap fun other =>
      if age = other then (cc.seconds age).toList else []) = (cc.seconds age).toList := by
    cases age <;> simp [CacheAge.all]
  rw [alone]
  cases cc.seconds age <;> rfl

/-- Directives are the same when they are parsed again. -/
theorem directives_survive (cc : CacheControl) : parse cc.display = .ok cc := by
  have parts : parse cc.display = cc.parts.foldlM parseDirective new := by
    rw [parse_parts]
    by_cases present : cc.parts = []
    · rw [display, present]
      rfl
    · have split : cc.display.splitOn ',' = Cutting.padded ' ' cc.parts :=
        Separating.splitOn_padded (fun part inside => (cc.parts_plain part inside).2.2.2) present
          (by decide)
      obtain ⟨first, others, same⟩ := List.exists_cons_of_ne_nil present
      have each := cc.parts_plain
      rw [same] at each
      obtain ⟨⟨_, _, trimmed, _⟩, behind⟩ := List.forall_mem_cons.mp each
      -- The space behind each comma is trimmed.
      have padded : (Cutting.padded ' ' cc.parts).map trim = cc.parts := by
        rw [same, Cutting.padded, List.map_cons, List.map_map, (trimmed_space trimmed).1]
        refine congrArg (first :: ·) ?_
        conv_rhs => rw [← List.map_id others]
        refine List.map_congr_left fun part inside => ?_
        exact (trimmed_space (behind part inside).2.2.1).2
      rw [split, padded]
  obtain ⟨last, parsed⟩ := foldlM_defined (fun part inside => (cc.parts_plain part inside).1) new
  obtain ⟨_, all⟩ := foldlM_asks parsed
  rw [parts, parsed]
  refine congrArg Except.ok (ext_fields (fun flag => ?_) fun age => ?_)
  · have unset : new.flag flag = false := by cases flag <;> rfl
    rw [all.flags, unset, Bool.or_false, any_parts]
  · have unset : new.seconds age = none := by cases age <;> rfl
    rw [all.seconds, unset, Option.or_none, filterMap_parts]

end CacheControl

end Http11

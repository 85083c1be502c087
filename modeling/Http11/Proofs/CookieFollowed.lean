import Http11.Proofs.CookieAttributes

/-! When a cookie is what the attributes of its header ask for. -/

namespace Http11

/-- The last value that passes a test has the mark of the last value of all exactly when that one
passes it, or has the same mark. -/
theorem getLast?_filter {Value Mark : Type} (test : Value → Bool) (mark : Value → Mark)
    (values : List Value) : (values.filter test).getLast?.map mark = values.getLast?.map mark ↔
      ∀ value, values.getLast? = some value → test value = false →
        (values.filter test).getLast?.map mark = some (mark value) := by
  -- Everything turns on whether the last value passes the test.
  rcases List.eq_nil_or_concat' values with rfl | ⟨front, last, rfl⟩
  · simp
  · rw [List.getLast?_concat]
    constructor
    · intro same value found _
      cases found
      exact same
    · intro followed
      cases passed : test last with
      -- If it passes, it is the last one of those that pass.
      | true =>
        rw [List.filter_append, List.filter_cons_of_pos passed, List.filter_nil,
          List.getLast?_concat]
      | false => exact followed last rfl passed

/-- What is said of values that pass tests one after the other are the marks of those that are left. -/
theorem filterMap_tests {Item Value Mark : Type} {said : Item → Option Mark} {named : Item → Bool}
    {value : Item → Value} {first second : Value → Bool} {mark : Value → Mark}
    (tested : ∀ item, said item =
      if named item = true ∧ first (value item) = true ∧ second (value item) = true then
        some (mark (value item)) else none) (items : List Item) :
    items.filterMap said = ((((items.filter named).map value).filter first).filter second).map mark := by
  induction items with
  | nil => rfl
  | cons item items ih =>
    have here := tested item
    -- Each of the three tests can drop the item, and then nothing is said of it.
    by_cases name : named item = true
    · by_cases one : first (value item) = true
      · by_cases other : second (value item) = true
        · rw [if_pos ⟨name, one, other⟩] at here
          rw [List.filterMap_cons_some here, ih, List.filter_cons_of_pos name, List.map_cons,
            List.filter_cons_of_pos one, List.filter_cons_of_pos other, List.map_cons]
        · rw [if_neg fun all => other all.2.2] at here
          rw [List.filterMap_cons_none here, ih, List.filter_cons_of_pos name, List.map_cons,
            List.filter_cons_of_pos one, List.filter_cons_of_neg other]
      · rw [if_neg fun all => one all.2.1] at here
        rw [List.filterMap_cons_none here, ih, List.filter_cons_of_pos name, List.map_cons,
          List.filter_cons_of_neg one]
    · rw [if_neg fun all => name all.1] at here
      rw [List.filterMap_cons_none here, ih, List.filter_cons_of_neg name]

namespace SetCookie

/-- A number with a minus sign in front has digits behind it and is not above zero. -/
theorem parseI64_negative {digits : Str} {number : Int}
    (read : parseI64 ('-' :: digits) = some number) : digits ≠ [] ∧ number ≤ 0 := by
  -- The sign is followed by at least one digit.
  rw [parseI64] at read
  split at read
  · cases read
  · rename_i present
    obtain ⟨natural, _, rfl⟩ := Option.map_eq_some_iff.mp read
    have : (0 : Int) ≤ Int.ofNat natural := Int.natCast_nonneg natural
    exact ⟨by simpa using present, by omega⟩

/-- A number of digits is the value of the digits. -/
theorem parseI64_digits {digits : Str} {number : Int} (all : digits.all Char.isDigit = true)
    (read : parseI64 digits = some number) : number = Numerals.value 10 digits ∧
      number ≤ 2 ^ 63 - 1 := by
  -- Digits contain no sign, so none of the branches with one is taken.
  have minus : '-' ∉ digits := fun inside => absurd (List.all_eq_true.mp all '-' inside) (by decide)
  have plus : '+' ∉ digits := fun inside => absurd (List.all_eq_true.mp all '+' inside) (by decide)
  unfold parseI64 at read
  split at read
  · exact absurd List.mem_cons_self minus
  · obtain ⟨natural, found, rfl⟩ := Option.map_eq_some_iff.mp read
    obtain ⟨others, same | same, _, _, value, within⟩ := (Numerals.read_iff (by decide)).mp found
    · rw [same, value, Int.ofNat_eq_natCast]
      exact ⟨rfl, by omega⟩
    · rw [same] at plus
      exact absurd List.mem_cons_self plus

/-- Seconds are read of an age that sixty-four bits hold, and of nothing else. -/
theorem parseMaxAge_age (value : Str) : parseMaxAge value =
    if isAge value = true ∧ fitsI64 value = true then some (secondsOf value) else none := by
  cases value with
  | nil => rfl
  | cons first rest =>
    cases read : parseI64 (first :: rest) with
    | none =>
      -- Sixty-four bits do not hold the value.
      have large : fitsI64 (first :: rest) = false := by rw [fitsI64, read]; rfl
      rw [if_neg (by simp [large]), parseMaxAge, read, Option.map_none, ite_self]
    | some number =>
      have fits : fitsI64 (first :: rest) = true := by rw [fitsI64, read]; rfl
      rw [parseMaxAge, read, Option.map_some]
      by_cases sign : first = '-'
      · subst sign
        obtain ⟨present, negative⟩ := parseI64_negative read
        have seconds : secondsOf ('-' :: rest) = if number < 0 then 0 else number := by
          rw [secondsOf, if_pos (List.head?_cons ..)]
          split <;> omega
        have age : isAge ('-' :: rest) = rest.all Char.isDigit := by
          rw [isAge]
          simp [present]
        simp [age, fits, seconds]
      · have age : isAge (first :: rest) = (first.isDigit && rest.all Char.isDigit) := by
          rw [isAge.eq_def]
          split
          · rename_i same
            exact absurd (List.cons.inj same).1 sign
          · rfl
        have other : (first == '-') = false := beq_eq_false_iff_ne.mpr sign
        rw [age, fits, other, Bool.or_false]
        by_cases digits : (first.isDigit && rest.all Char.isDigit) = true
        · obtain ⟨same, within⟩ := @parseI64_digits (first :: rest) _ digits read
          have seconds : secondsOf (first :: rest) = number := by
            rw [secondsOf, if_neg (by simpa using sign), ← same]
            omega
          have positive : ¬ number < 0 := by omega
          rw [if_pos digits, if_neg positive, seconds, if_pos (And.intro digits rfl)]
        · rw [if_neg digits, if_neg fun both => digits both.1]

/-- An attribute sets seconds if it is an age that sixty-four bits hold. -/
theorem saidMaxAge_age (part : Str) : saidMaxAge part =
    if IsNamed "max-age".toList part ∧ isAge (attributeValue part) = true ∧
      fitsI64 (attributeValue part) = true then some (secondsOf (attributeValue part)) else none := by
  rw [saidMaxAge, valueOf]
  cases split : splitOnce '=' part with
  | none =>
    -- Nothing is no age.
    have value : attributeValue part = [] := by rw [attributeValue, split]
    rw [value]
    exact (if_neg fun both => absurd both.2.1 (by decide)).symm
  | some pair =>
    have value : attributeValue part = trim pair.2 := by rw [attributeValue, split]
    have name : IsNamed "max-age".toList part ↔ toAsciiLowercase (trim pair.1) = "max-age".toList := by
      unfold IsNamed attributeName
      rw [split]
    dsimp only
    rw [value]
    by_cases named : toAsciiLowercase (trim pair.1) = "max-age".toList
    · rw [if_pos named, Option.bind_some, parseMaxAge_age]
      exact if_congr (iff_and_self.mpr fun _ => name.mpr named) rfl rfl
    · rw [if_neg named, Option.bind_none, if_neg fun both => named (name.mp both.1)]

/-- What is said of seconds are the ages that sixty-four bits hold. -/
theorem filterMap_saidMaxAge (input : Str) : (attributes input).filterMap saidMaxAge =
    ((ages input).filter fitsI64).map secondsOf :=
  filterMap_tests (fun part => by
    rw [saidMaxAge_age]
    exact if_congr (and_congr_left' decide_eq_true_iff.symm) rfl rfl) _

/-- A flag is what its attributes ask for exactly when one of them is bare, if there are any. -/
theorem flag_followed {flag : Bool} {name input : Str}
    (set : flag = (attributes input).any (isBare name)) :
    (flag = true ↔ ∃ part ∈ attributes input, IsNamed name part) ↔ IsBareIfGiven name input := by
  have bare : flag = true ↔ ∃ part ∈ attributes input, '=' ∉ part ∧ IsNamed name part := by
    rw [set, List.any_eq_true]
    exact exists_congr fun part => and_congr_right fun _ => isBare_iff
  rw [bare, IsBareIfGiven]
  exact ⟨fun followed => followed.mpr, fun given =>
    ⟨fun ⟨part, inside, _, named⟩ => ⟨part, inside, named⟩, given⟩⟩

/-- A cookie is what the attributes of its header ask for exactly when no flag has a value only,
and no last age is too large unless the one before stands for the same seconds. -/
theorem attributes_followed {input : Str} {referenceYear : UInt16} {cookie : SetCookie}
    (parsed : parse input referenceYear = .ok cookie) :
    FollowsAttributes input cookie ↔ IsFollowed input := by
  obtain ⟨pair, all⟩ := parse_sets parsed
  -- Each of the three attributes is followed for a reason of its own.
  have secure := flag_followed (all.secure.trans (Bool.or_false _))
  have httpOnly := flag_followed (all.httpOnly.trans (Bool.or_false _))
  -- The last age that fits is the one that was stored.
  have maxAge : cookie.maxAge = ((ages input).filter fitsI64).getLast?.map secondsOf := by
    rw [all.maxAge, filterMap_saidMaxAge, List.getLast?_map]
    exact Option.or_none
  have last := getLast?_filter fitsI64 secondsOf (ages input)
  rw [← maxAge] at last
  constructor
  · intro follows
    exact ⟨secure.mp follows.secure, httpOnly.mp follows.httpOnly, maxAge ▸ last.mp follows.maxAge⟩
  · intro followed
    exact ⟨secure.mpr followed.secure, httpOnly.mpr followed.httpOnly,
      last.mpr (maxAge ▸ followed.maxAge)⟩

/-- A secure cookie with two ages, the last of which is too large as the one before it nearly is. -/
theorem attributes_followed_clamped : ∃ input cookie, parse input 2024 = .ok cookie ∧
    cookie.secure = true ∧ cookie.maxAge = some (2 ^ 63 - 1) ∧
    (FollowsAttributes input cookie ↔ IsFollowed input) := by
  have parsed : parse ("a=b; Secure; Secure=1; Max-Age=9223372036854775807; " ++
      "Max-Age=9223372036854775808").toList 2024 =
      .ok ⟨⟨"a".toList, "b".toList, by decide, by decide⟩, none, some (2 ^ 63 - 1), none, none, true,
        false, none⟩ := by decide
  exact ⟨_, _, parsed, rfl, rfl, attributes_followed parsed⟩

/-- A flag with a value is lost. -/
theorem valued_flag_lost : ¬ ∀ (input : Str) (year : UInt16) (cookie : SetCookie),
    parse input year = .ok cookie → FollowsAttributes input cookie := by
  intro followed
  have parsed : parse "a=b; Secure=1".toList 2024 =
      .ok (ofCookie ⟨"a".toList, "b".toList, by decide, by decide⟩) := by decide
  have secure := (followed _ _ _ parsed).secure
  have given : ∃ part ∈ attributes "a=b; Secure=1".toList, IsNamed "secure".toList part := by
    decide
  cases secure.mpr given

end SetCookie

end Http11

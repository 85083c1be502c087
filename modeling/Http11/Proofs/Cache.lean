import Http11.CacheGrammar
import Http11.Lib.Separating
import Http11.Proofs.Quoting

/-! What each part of a header asks of caches, and what all parts ask for together. -/

namespace Http11

namespace CacheFlag

/-- Directives with the same name are the same. -/
theorem name_injective {flag other : CacheFlag} (same : flag.name = other.name) : flag = other := by
  revert same
  cases flag <;> cases other <;> decide

/-- A flag has no name of a directive with seconds. -/
theorem name_ne (flag : CacheFlag) (age : CacheAge) : flag.name ≠ age.name := by
  cases flag <;> cases age <;> decide

end CacheFlag

/-- Directives with the same name are the same. -/
theorem CacheAge.name_injective {age other : CacheAge} (same : age.name = other.name) :
    age = other := by
  revert same
  cases age <;> cases other <;> decide

namespace CacheControl

/-- Some directives and one more. -/
def raise (cc : CacheControl) : CacheFlag → CacheControl
  | .noCache => { cc with noCache := true }
  | .noStore => { cc with noStore := true }
  | .noTransform => { cc with noTransform := true }
  | .onlyIfCached => { cc with onlyIfCached := true }
  | .mustRevalidate => { cc with mustRevalidate := true }
  | .proxyRevalidate => { cc with proxyRevalidate := true }
  | .mustUnderstand => { cc with mustUnderstand := true }
  | .isPublic => { cc with isPublic := true }
  | .isPrivate => { cc with isPrivate := true }
  | .isImmutable => { cc with isImmutable := true }

/-- Some directives and the seconds of one. -/
def setSeconds (cc : CacheControl) (number : UInt64) : CacheAge → CacheControl
  | .maxAge => { cc with maxAge := some number }
  | .sMaxage => { cc with sMaxage := some number }
  | .maxStale => { cc with maxStale := some number }
  | .minFresh => { cc with minFresh := some number }
  | .staleWhileRevalidate => { cc with staleWhileRevalidate := some number }
  | .staleIfError => { cc with staleIfError := some number }

/-- One flag is set and the others stay. -/
@[simp] theorem flag_raise (cc : CacheControl) (flag other : CacheFlag) :
    (cc.raise flag).flag other = (decide (flag = other) || cc.flag other) := by
  cases flag <;> cases other <;> rfl

/-- A flag sets no seconds. -/
@[simp] theorem seconds_raise (cc : CacheControl) (flag : CacheFlag) (age : CacheAge) :
    (cc.raise flag).seconds age = cc.seconds age := by
  cases flag <;> cases age <;> rfl

/-- Seconds set no flag. -/
@[simp] theorem flag_setSeconds (cc : CacheControl) (number : UInt64) (age : CacheAge)
    (flag : CacheFlag) : (cc.setSeconds number age).flag flag = cc.flag flag := by
  cases age <;> cases flag <;> rfl

/-- The seconds of one directive are set and the others stay. -/
@[simp] theorem seconds_setSeconds (cc : CacheControl) (number : UInt64) (age other : CacheAge) :
    (cc.setSeconds number age).seconds other =
      (if age = other then some number else none).or (cc.seconds other) := by
  cases age <;> cases other <;> rfl

/-- The argument of a directive with seconds is a number of them. -/
theorem setArgument_age (cc : CacheControl) (age : CacheAge) (value : Str) :
    cc.setArgument age.name value =
      (parseSeconds value).map fun number => cc.setSeconds number age := by
  cases age <;> rfl

/-- A flag that may have an argument is set with one. -/
theorem setArgument_flag (cc : CacheControl) {flag : CacheFlag} (may : flag.isQualified = true)
    (value : Str) : cc.setArgument flag.name value = .ok (cc.raise flag) := by
  cases flag <;> cases may <;> rfl

/-- The argument of any other directive is passed over. -/
theorem setArgument_other (cc : CacheControl) {name : Str}
    (noFlag : ∀ flag : CacheFlag, flag.isQualified = true → name ≠ flag.name)
    (noAge : ∀ age : CacheAge, name ≠ age.name) (value : Str) :
    cc.setArgument name value = .ok cc := by
  unfold setArgument
  refine (if_neg (noAge .maxAge)).trans <| (if_neg (noAge .sMaxage)).trans <|
    (if_neg (noAge .maxStale)).trans <| (if_neg (noAge .minFresh)).trans <|
    (if_neg (noAge .staleWhileRevalidate)).trans <| (if_neg (noAge .staleIfError)).trans <|
    (if_neg (noFlag .noCache rfl)).trans <| if_neg (noFlag .isPrivate rfl)

/-- A flag is set without an argument. -/
theorem setFlag_flag (cc : CacheControl) (flag : CacheFlag) :
    cc.setFlag flag.name = cc.raise flag := by
  cases flag <;> rfl

/-- Any other directive is passed over without an argument, unless it is one without a limit. -/
theorem setFlag_other (cc : CacheControl) {name : Str}
    (noFlag : ∀ flag : CacheFlag, name ≠ flag.name) (noStale : name ≠ CacheAge.maxStale.name) :
    cc.setFlag name = cc := by
  unfold setFlag
  exact (if_neg (noFlag .noCache)).trans <| (if_neg (noFlag .noStore)).trans <|
    (if_neg (noFlag .noTransform)).trans <| (if_neg (noFlag .onlyIfCached)).trans <|
    (if_neg (noFlag .mustRevalidate)).trans <| (if_neg (noFlag .proxyRevalidate)).trans <|
    (if_neg (noFlag .mustUnderstand)).trans <| (if_neg (noFlag .isPublic)).trans <|
    (if_neg (noFlag .isPrivate)).trans <| (if_neg (noFlag .isImmutable)).trans <| if_neg noStale

/-- What is set by a directive without an argument. -/
theorem setFlag_asks (cc : CacheControl) (name : Str) :
    (∀ flag, (cc.setFlag name).flag flag = (decide (name = flag.name) || cc.flag flag)) ∧
    ∀ age, (cc.setFlag name).seconds age =
      (if age = .maxStale ∧ name = age.name then some (UInt64.ofNat u64Max) else none).or
        (cc.seconds age) := by
  -- A name is that of a flag, of the seconds without a limit, or unknown.
  by_cases flagged : ∃ flag : CacheFlag, name = flag.name
  · obtain ⟨flag, rfl⟩ := flagged
    rw [setFlag_flag]
    refine ⟨fun other => ?_, fun age => ?_⟩
    · rw [flag_raise]
      exact congrArg (· || cc.flag other)
        (decide_eq_decide.mpr ⟨congrArg CacheFlag.name, CacheFlag.name_injective⟩)
    · -- A flag leaves the seconds as they are.
      rw [seconds_raise, if_neg fun both => flag.name_ne age both.2, Option.none_or]
  · have noFlag : ∀ flag : CacheFlag, name ≠ flag.name := fun flag same => flagged ⟨flag, same⟩
    -- Only one name of seconds is taken without an argument.
    by_cases stale : name = CacheAge.maxStale.name
    · subst stale
      have same : cc.setFlag CacheAge.maxStale.name =
          cc.setSeconds (UInt64.ofNat u64Max) .maxStale := rfl
      rw [same]
      refine ⟨fun other => ?_, fun age => ?_⟩
      · rw [flag_setSeconds, decide_eq_false (noFlag other), Bool.false_or]
      · rw [seconds_setSeconds]
        refine congrArg (Option.or · (cc.seconds age)) (if_congr ?_ rfl rfl)
        exact ⟨fun same => ⟨same.symm, congrArg CacheAge.name same⟩, fun both => both.1.symm⟩
    · -- Unknown names set nothing.
      rw [setFlag_other cc noFlag stale]
      refine ⟨fun other => ?_, fun age => ?_⟩
      · rw [decide_eq_false (noFlag other), Bool.false_or]
      · have silent : ¬ (age = .maxStale ∧ name = age.name) := by
          rintro ⟨rfl, named⟩
          exact stale named
        rw [if_neg silent, Option.none_or]

end CacheControl

/-- Digits are a number of seconds. -/
theorem parseSeconds_digits {text : Str} (digits : IsDigits text) :
    parseSeconds text = .ok (deltaSeconds text) := by
  have checked := (isDigits_iff text).mp digits
  have all : Numerals.AreDigits 10 text := (areDigits_iff text).mpr digits.2
  rw [parseSeconds, if_neg (by simpa using checked), deltaSeconds, parseU64]
  refine congrArg Except.ok ?_
  by_cases fits : Numerals.value 10 text ≤ u64Max
  · have read : Numerals.read 10 u64Max text = some (Numerals.value 10 text) :=
      (Numerals.read_iff (by decide)).mpr ⟨text, .inl rfl, digits.1, all, rfl, fits⟩
    rw [if_pos fits, read]
    rfl
  · have read : Numerals.read 10 u64Max text = none := by
      rw [Option.eq_none_iff_forall_ne_some]
      intro number found
      obtain ⟨others, same | same, _, areDigits, value, within⟩ :=
        (Numerals.read_iff (by decide)).mp found
      · rw [same, value] at fits
        exact fits within
      · -- A sign is no digit.
        rw [same] at digits
        exact absurd (digits.2 '+' List.mem_cons_self) (by decide)
    rw [if_neg fits, read]
    rfl

/-- Nothing but digits is a number of seconds. -/
theorem parseSeconds_ok {text : Str} {number : UInt64} (parsed : parseSeconds text = .ok number) :
    IsDigits text := by
  rw [parseSeconds] at parsed
  split at parsed
  · cases parsed
  · rename_i checked
    exact (isDigits_iff text).mpr (by simpa using checked)

namespace CacheControl

/-- What is set by a directive with an argument, which is digits where it is of seconds. -/
theorem setArgument_asks (cc : CacheControl) (name value : Str) {next : CacheControl}
    (set : cc.setArgument name value = .ok next) :
    (∀ flag : CacheFlag, next.flag flag =
      ((decide (name = flag.name) && flag.isQualified) || cc.flag flag)) ∧
    (∀ age : CacheAge, next.seconds age =
      (if name = age.name then some (deltaSeconds value) else none).or (cc.seconds age)) ∧
    ∀ age : CacheAge, name = age.name → IsDigits value := by
  -- A name is one of seconds, of a flag that may have fields, or unknown.
  by_cases aged : ∃ age : CacheAge, name = age.name
  · obtain ⟨age, rfl⟩ := aged
    rw [setArgument_age] at set
    cases read : parseSeconds value with
    | error error =>
      rw [read] at set
      cases set
    | ok number =>
      have digits := parseSeconds_ok read
      rw [parseSeconds_digits digits] at set
      cases set
      -- Digits are needed here, and they set only these seconds.
      refine ⟨fun flag => ?_, fun other => ?_, fun _ _ => digits⟩
      · rw [flag_setSeconds, decide_eq_false (flag.name_ne age).symm, Bool.false_and, Bool.false_or]
      · rw [seconds_setSeconds]
        exact congrArg (Option.or · (cc.seconds other))
          (if_congr ⟨congrArg CacheAge.name, CacheAge.name_injective⟩ rfl rfl)
  · have noAge : ∀ age : CacheAge, name ≠ age.name := fun age same => aged ⟨age, same⟩
    have silent : ∀ age : CacheAge, (if name = age.name then some (deltaSeconds value) else none).or
        (cc.seconds age) = cc.seconds age := by
      intro age
      rw [if_neg (noAge age), Option.none_or]
    -- The fields of a flag are ignored and the flag is raised.
    by_cases flagged : ∃ flag : CacheFlag, flag.isQualified = true ∧ name = flag.name
    · obtain ⟨flag, may, rfl⟩ := flagged
      rw [setArgument_flag cc may] at set
      cases set
      refine ⟨fun other => ?_, fun age => ?_, fun age same => absurd same (noAge age)⟩
      · rw [flag_raise]
        refine congrArg (· || cc.flag other) ?_
        by_cases same : flag = other
        · subst same
          simp [may]
        · have other : flag.name ≠ other.name := fun named => same (CacheFlag.name_injective named)
          simp [same, other]
      · rw [seconds_raise, silent]
    · -- A flag that may have no fields is not raised by a name with an argument.
      have noFlag : ∀ flag : CacheFlag, flag.isQualified = true → name ≠ flag.name :=
        fun flag may same => flagged ⟨flag, may, same⟩
      rw [setArgument_other cc noFlag noAge] at set
      cases set
      refine ⟨fun other => ?_, fun age => (silent age).symm, fun age same => absurd same (noAge age)⟩
      by_cases may : other.isQualified = true
      · simp [noFlag other may]
      · simp [may]

/-- A directive with an argument is accepted if it is digits where it is of seconds. -/
theorem setArgument_defined (cc : CacheControl) {name value : Str}
    (digits : ∀ age : CacheAge, name = age.name → IsDigits value) :
    ∃ next, cc.setArgument name value = .ok next := by
  -- Only seconds can be refused, and here they are digits.
  by_cases aged : ∃ age : CacheAge, name = age.name
  · obtain ⟨age, rfl⟩ := aged
    rw [setArgument_age, parseSeconds_digits (digits age rfl)]
    exact ⟨_, rfl⟩
  by_cases flagged : ∃ flag : CacheFlag, flag.isQualified = true ∧ name = flag.name
  · obtain ⟨flag, may, rfl⟩ := flagged
    exact ⟨_, setArgument_flag cc may value⟩
  · exact ⟨cc, setArgument_other cc (fun flag may same => flagged ⟨flag, may, same⟩)
      (fun age same => aged ⟨age, same⟩) value⟩

/-- What a part asks for, and what it leaves as it is. -/
structure Asks (part : Str) (cc next : CacheControl) : Prop where
  /-- A flag is set that is asked for. -/
  flags : ∀ flag, next.flag flag = (asksFlag flag part || cc.flag flag)
  /-- Seconds are set that are asked for. -/
  seconds : ∀ age, next.seconds age = (asksSeconds age part).or (cc.seconds age)

/-- A part that is read is accepted, and what it asks for is set. -/
theorem parseDirective_asks {cc next : CacheControl} {part : Str}
    (parsed : cc.parseDirective part = .ok next) : IsAccepted part ∧ Asks part cc next := by
  unfold parseDirective at parsed
  dsimp only at parsed
  split at parsed
  · -- Nothing is no directive.
    rename_i empty
    rw [List.isEmpty_iff] at empty
    cases parsed
    refine ⟨fun name value split => ?_, fun flag => ?_, fun age => ?_⟩
    · rw [empty] at split
      cases split
    · rw [asksFlag, empty]
      cases flag <;> rfl
    · rw [asksSeconds, empty]
      cases age <;> rfl
  split at parsed
  · rename_i name value split
    split at parsed
    · cases parsed
    rename_i text stripped
    obtain ⟨flags, seconds, digits⟩ := setArgument_asks _ _ _ parsed
    refine ⟨fun front back same => ?_, fun flag => ?_, fun age => ?_⟩
    · rw [split] at same
      cases same
      exact ⟨text, stripped, digits⟩
    · rw [flags, asksFlag, split]
    · rw [seconds, asksSeconds, split]
      dsimp only
      rw [stripped]
      rfl
  · rename_i split
    cases parsed
    obtain ⟨flags, seconds⟩ := setFlag_asks cc (toLowercase (trim part))
    refine ⟨fun name value same => ?_, fun flag => ?_, fun age => ?_⟩
    · rw [split] at same
      cases same
    · rw [flags, asksFlag, split]
    · rw [seconds, asksSeconds, split]

/-- A part that is accepted is read. -/
theorem parseDirective_defined (cc : CacheControl) {part : Str} (accepted : IsAccepted part) :
    ∃ next, cc.parseDirective part = .ok next := by
  unfold parseDirective
  dsimp only
  -- An empty part is passed over.
  split
  · exact ⟨cc, rfl⟩
  split
  · -- A part with a sign needs an argument that can be unquoted.
    rename_i name value split
    obtain ⟨text, stripped, digits⟩ := accepted name value split
    rw [stripped]
    exact setArgument_defined cc digits
  · exact ⟨_, rfl⟩

/-- What parts ask for together, of which the last one that asks for seconds counts. -/
structure AsksAll (parts : List Str) (cc last : CacheControl) : Prop where
  /-- A flag is set that any part asks for. -/
  flags : ∀ flag, last.flag flag = (parts.any (asksFlag flag) || cc.flag flag)
  /-- Seconds are set that the last part asks for. -/
  seconds : ∀ age, last.seconds age =
    (parts.filterMap (asksSeconds age)).getLast?.or (cc.seconds age)

/-- Parts that are read are accepted, and what they ask for together is set. -/
theorem foldlM_asks {parts : List Str} {cc last : CacheControl}
    (parsed : parts.foldlM parseDirective cc = .ok last) :
    (∀ part ∈ parts, IsAccepted part) ∧ AsksAll parts cc last := by
  -- What is set changes with every part.
  induction parts generalizing cc with
  | nil =>
    cases parsed
    exact ⟨List.forall_mem_nil _, fun _ => rfl, fun _ => rfl⟩
  | cons part parts ih =>
    obtain ⟨next, one, behind⟩ := foldlM_cons_ok.mp parsed
    obtain ⟨here, asks⟩ := parseDirective_asks one
    obtain ⟨others, all⟩ := ih behind
    refine ⟨List.forall_mem_cons.mpr ⟨here, others⟩, fun flag => ?_, fun age => ?_⟩
    · rw [all.flags, asks.flags, List.any_cons, Bool.or_left_comm, Bool.or_assoc]
    · rw [all.seconds, asks.seconds, getLast?_said]

/-- Parts that are accepted are read. -/
theorem foldlM_defined {parts : List Str} (accepted : ∀ part ∈ parts, IsAccepted part)
    (cc : CacheControl) : ∃ last, parts.foldlM parseDirective cc = .ok last := by
  induction parts generalizing cc with
  | nil => exact ⟨cc, rfl⟩
  | cons part parts ih =>
    obtain ⟨here, others⟩ := List.forall_mem_cons.mp accepted
    obtain ⟨next, one⟩ := cc.parseDirective_defined here
    obtain ⟨last, behind⟩ := ih others next
    exact ⟨last, foldlM_cons_ok.mpr ⟨next, one, behind⟩⟩

/-- White space around a part makes no difference. -/
theorem parseDirective_trim (cc : CacheControl) (part : Str) :
    cc.parseDirective (trim part) = cc.parseDirective part := by
  obtain ⟨_, _, _, _, trimmed, _⟩ := Trimming.trim_spec isWhitespace part
  have again : trim (trim part) = trim part := trimmed.trim_eq
  rw [parseDirective, parseDirective, again]

/-- White space around parts makes no difference. -/
theorem foldlM_trim (parts : List Str) (cc : CacheControl) :
    (parts.map trim).foldlM parseDirective cc = parts.foldlM parseDirective cc := by
  rw [List.foldlM_map]
  simp only [parseDirective_trim]

/-- A header is the parts of it between commas, without white space around them. -/
theorem parse_parts (input : Str) :
    parse input = ((input.splitOn ',').map trim).foldlM parseDirective new := by
  have same := Separating.map_trim_splitOn (by decide : isWhitespace ',' = false) input
  change ((trim input).splitOn ',').map trim = (input.splitOn ',').map trim at same
  rw [← same, foldlM_trim, parse]
  split
  · -- The source stops early at the empty header, which has one empty part.
    rename_i empty
    rw [List.isEmpty_iff.mp empty]
    rfl
  · rfl

end CacheControl

end Http11

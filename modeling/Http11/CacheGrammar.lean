import Http11.AuthGrammar
import Http11.Cache

/-! The grammar of headers that say something about caching, and what they ask for. -/

namespace Http11

/-- A directive that is there or not. -/
inductive CacheFlag where
  /-- The response is checked before it is used. -/
  | noCache
  /-- It is not stored. -/
  | noStore
  /-- It is not changed. -/
  | noTransform
  /-- It comes from the cache or not at all. -/
  | onlyIfCached
  /-- It is not used when it is stale. -/
  | mustRevalidate
  /-- A shared cache does not use it when it is stale. -/
  | proxyRevalidate
  /-- Only caches store it that know its status. -/
  | mustUnderstand
  /-- Any cache stores it. -/
  | isPublic
  /-- No shared cache stores it. -/
  | isPrivate
  /-- It does not change while it is fresh. -/
  | isImmutable
  deriving DecidableEq

/-- A directive with a number of seconds. -/
inductive CacheAge where
  /-- The response is fresh. -/
  | maxAge
  /-- It is fresh in a shared cache. -/
  | sMaxage
  /-- A stale response is accepted. -/
  | maxStale
  /-- The response stays fresh. -/
  | minFresh
  /-- A stale response is used while it is checked. -/
  | staleWhileRevalidate
  /-- A stale response is used if there is an error. -/
  | staleIfError
  deriving DecidableEq

namespace CacheFlag

/-- The name of a directive. -/
def name : CacheFlag → Str
  | noCache => "no-cache".toList
  | noStore => "no-store".toList
  | noTransform => "no-transform".toList
  | onlyIfCached => "only-if-cached".toList
  | mustRevalidate => "must-revalidate".toList
  | proxyRevalidate => "proxy-revalidate".toList
  | mustUnderstand => "must-understand".toList
  | isPublic => "public".toList
  | isPrivate => "private".toList
  | isImmutable => "immutable".toList

/-- A directive that may have the names of fields as its argument. -/
def isQualified (flag : CacheFlag) : Bool := flag = noCache || flag = isPrivate

end CacheFlag

namespace CacheAge

/-- The name of a directive. -/
def name : CacheAge → Str
  | maxAge => "max-age".toList
  | sMaxage => "s-maxage".toList
  | maxStale => "max-stale".toList
  | minFresh => "min-fresh".toList
  | staleWhileRevalidate => "stale-while-revalidate".toList
  | staleIfError => "stale-if-error".toList

end CacheAge

namespace CacheControl

/-- Whether a directive is there. -/
def flag (cc : CacheControl) : CacheFlag → Bool
  | .noCache => cc.noCache
  | .noStore => cc.noStore
  | .noTransform => cc.noTransform
  | .onlyIfCached => cc.onlyIfCached
  | .mustRevalidate => cc.mustRevalidate
  | .proxyRevalidate => cc.proxyRevalidate
  | .mustUnderstand => cc.mustUnderstand
  | .isPublic => cc.isPublic
  | .isPrivate => cc.isPrivate
  | .isImmutable => cc.isImmutable

/-- The seconds of a directive. -/
def seconds (cc : CacheControl) : CacheAge → Option UInt64
  | .maxAge => cc.maxAge
  | .sMaxage => cc.sMaxage
  | .maxStale => cc.maxStale
  | .minFresh => cc.minFresh
  | .staleWhileRevalidate => cc.staleWhileRevalidate
  | .staleIfError => cc.staleIfError

end CacheControl

/-- A directive as it is written. -/
structure Directive where
  /-- The name. -/
  name : Str
  /-- The argument behind an equals sign, with its quotes if it has them. -/
  argument : Option Str
  deriving DecidableEq

namespace Directive

/-- The text of a directive. -/
def text (directive : Directive) : Str :=
  match directive.argument with
  | none => directive.name
  | some argument => directive.name ++ '=' :: argument

/-- A directive has some name, in upper or lower case. -/
def IsNamed (directive : Directive) (name : Str) : Prop := toAsciiLowercase directive.name = name

end Directive

/-- The directives of the grammar. -/
inductive IsDirective : Directive → Prop where
  /-- A known one without an argument. -/
  | flag {name : Str} (token : isToken name = true) (flag : CacheFlag)
    (named : toAsciiLowercase name = flag.name) : IsDirective ⟨name, none⟩
  /-- A known one with a number of seconds. -/
  | seconds {name text : Str} (token : isToken name = true) (age : CacheAge)
    (named : toAsciiLowercase name = age.name) (digits : IsDigits text) :
    IsDirective ⟨name, some text⟩
  /-- One with the names of fields in a quoted string. -/
  | qualified {name text value : Str} (token : isToken name = true) (flag : CacheFlag)
    (named : toAsciiLowercase name = flag.name) (may : flag.isQualified = true)
    (quoted : IsQuoted text value) : IsDirective ⟨name, some ('"' :: (text ++ ['"']))⟩
  /-- An unknown one with an argument or without one. -/
  | unknown {name : Str} {argument : Option Str} (token : isToken name = true)
    (noFlag : ∀ flag : CacheFlag, toAsciiLowercase name ≠ flag.name)
    (noAge : ∀ age : CacheAge, toAsciiLowercase name ≠ age.name)
    (written : ∀ text, argument = some text → ∃ value, IsParamValue text value) :
    IsDirective ⟨name, argument⟩

/-- A list of directives that is a header. -/
structure AreDirectives (directives : List Directive) : Prop where
  /-- They are of the grammar. -/
  valid : ∀ directive ∈ directives, IsDirective directive
  /-- No two of them have the same name. -/
  distinct : (directives.map fun directive => toAsciiLowercase directive.name).Nodup

/-- A directive with spaces or tabs around it. -/
def Directive.IsPadded (directive : Directive) (text : Str) : Prop :=
  ∃ before after, IsOwsText before ∧ IsOwsText after ∧ text = before ++ (directive.text ++ after)

/-- Directives with commas between them, and with spaces or tabs around these. -/
def IsCacheHeader (directives : List Directive) (text : Str) : Prop :=
  ∃ parts, List.Forall₂ Directive.IsPadded directives parts ∧ text = [','].intercalate parts

/-- The seconds that digits stand for. -/
def deltaSeconds (digits : Str) : UInt64 :=
  if Numerals.value 10 digits ≤ u64Max then UInt64.ofNat (Numerals.value 10 digits)
  else deltaSecondsOverflow

/-- What is set is what directives ask for. -/
structure Reflects (cc : CacheControl) (directives : List Directive) : Prop where
  /-- A flag is set if it is one of the directives. -/
  flags : ∀ flag : CacheFlag, cc.flag flag = true ↔
    ∃ directive ∈ directives, directive.IsNamed flag.name
  /-- Seconds are set to what one of the directives gives. -/
  seconds : ∀ (age : CacheAge) (number : UInt64), cc.seconds age = some number ↔
    ∃ directive ∈ directives, directive.IsNamed age.name ∧
      directive.argument.map deltaSeconds = some number

/-- What stands behind commas in the arguments of directives. -/
def hiddenParts (directives : List Directive) : List Str :=
  directives.flatMap fun directive => (directive.text.splitOn ',').tail

/-- A part is accepted on its own. -/
def IsAccepted (part : Str) : Prop :=
  ∀ name value, splitOnce '=' (trim part) = some (name, value) →
    ∃ text, stripQuotes (trim value) = .ok text ∧
      ∀ age : CacheAge, toLowercase (trim name) = age.name → IsDigits text

/-- Whether a part asks for a flag on its own. -/
def asksFlag (flag : CacheFlag) (part : Str) : Bool :=
  match splitOnce '=' (trim part) with
  | some (name, _) => toLowercase (trim name) = flag.name && flag.isQualified
  | none => toLowercase (trim part) = flag.name

/-- The seconds that a part asks for on its own. -/
def asksSeconds (age : CacheAge) (part : Str) : Option UInt64 :=
  match splitOnce '=' (trim part) with
  | some (name, value) =>
    if toLowercase (trim name) = age.name then
      (stripQuotes (trim value)).toOption.map deltaSeconds
    else none
  | none =>
    if age = .maxStale ∧ toLowercase (trim part) = age.name then some (UInt64.ofNat u64Max) else none

/-- The parts between commas in the arguments of directives change nothing. -/
structure IsUnmixed (directives : List Directive) : Prop where
  /-- They are accepted. -/
  accepted : ∀ directive ∈ directives, ∀ part ∈ directive.text.splitOn ',', IsAccepted part
  /-- They ask for no flag that is not asked for anyway. -/
  flags : ∀ part ∈ hiddenParts directives, ∀ flag, asksFlag flag part = true →
    ∃ directive ∈ directives, directive.IsNamed flag.name
  /-- They ask for no seconds of a directive that is not there. -/
  seconds : ∀ part ∈ hiddenParts directives, ∀ age, asksSeconds age part ≠ none →
    ∃ directive ∈ directives, directive.IsNamed age.name
  /-- The last one behind a directive that asks for other seconds of it asks for the same. -/
  last : ∀ front directive back age, directives = front ++ directive :: back →
    directive.IsNamed age.name → ∀ number,
      ((hiddenParts back).filterMap (asksSeconds age)).getLast? = some number →
        directive.argument.map deltaSeconds = some number

end Http11

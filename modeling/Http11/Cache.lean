import Http11.Validate

/-! What a response says about its caching. -/

namespace Http11

/-- What is wrong with a header of caches. -/
inductive CacheError where
  /-- Nothing. -/
  | empty
  /-- A quote on one side only. -/
  | invalidFormat
  /-- The number of seconds. -/
  | invalidNumber
  /-- The date. -/
  | invalidDate
  deriving DecidableEq, Repr

/-- The directives of a header, as far as they are known. -/
structure CacheControl where
  /-- For how many seconds the response is fresh. -/
  maxAge : Option UInt64
  /-- For how many seconds it is fresh in a shared cache. -/
  sMaxage : Option UInt64
  /-- For how many seconds a stale response is accepted. -/
  maxStale : Option UInt64
  /-- For how many seconds the response has to stay fresh. -/
  minFresh : Option UInt64
  /-- For how many seconds a stale response is used while it is checked. -/
  staleWhileRevalidate : Option UInt64
  /-- For how many seconds a stale response is used if there is an error. -/
  staleIfError : Option UInt64
  /-- Whether the response is checked before it is used. -/
  noCache : Bool
  /-- Whether it is not stored. -/
  noStore : Bool
  /-- Whether it is not changed. -/
  noTransform : Bool
  /-- Whether it comes from the cache or not at all. -/
  onlyIfCached : Bool
  /-- Whether it is not used when it is stale. -/
  mustRevalidate : Bool
  /-- Whether a shared cache does not use it when it is stale. -/
  proxyRevalidate : Bool
  /-- Whether only caches store it that know its status. -/
  mustUnderstand : Bool
  /-- Whether any cache stores it. -/
  isPublic : Bool
  /-- Whether no shared cache stores it. -/
  isPrivate : Bool
  /-- Whether it does not change while it is fresh. -/
  isImmutable : Bool
  deriving DecidableEq, Repr

/-- The seconds that are taken for a number of them that sixty-four bits do not hold. -/
def deltaSecondsOverflow : UInt64 := 2147483648

/-- A number of seconds, which is digits. -/
def parseSeconds (text : Str) : Except CacheError UInt64 :=
  if text.isEmpty || !(Utf8.encode text).all isAsciiDigit then .error .invalidNumber
  else .ok (((parseU64 text).map UInt64.ofNat).getD deltaSecondsOverflow)

/--
A character in lower case.

Two characters outside of ASCII have one of ASCII in their lower case. The others outside of ASCII
stay as they are here, since texts in lower case are compared with names in ASCII only.
-/
def lowercaseChar (char : Char) : Str :=
  if char.toNat = 0x130 then ['i', Char.ofNat 0x307]
  else if char.toNat = 0x212A then ['k']
  else [char.toLower]

/-- A text in lower case. -/
def toLowercase (text : Str) : Str := text.flatMap lowercaseChar

/-- A text without a quote on both sides of it, or as it is without quotes. -/
def stripQuotes (rawValue : Str) : Except CacheError Str :=
  match rawValue with
  | '"' :: stripped =>
    if stripped.getLast? = some '"' then .ok stripped.dropLast else .error .invalidFormat
  | _ => if rawValue.getLast? = some '"' then .error .invalidFormat else .ok rawValue

namespace CacheControl

/-- No directives. -/
def new : CacheControl where
  maxAge := none
  sMaxage := none
  maxStale := none
  minFresh := none
  staleWhileRevalidate := none
  staleIfError := none
  noCache := false
  noStore := false
  noTransform := false
  onlyIfCached := false
  mustRevalidate := false
  proxyRevalidate := false
  mustUnderstand := false
  isPublic := false
  isPrivate := false
  isImmutable := false

/-- What a directive with an argument asks for. -/
def setArgument (cc : CacheControl) (name value : Str) : Except CacheError CacheControl :=
  if name = "max-age".toList then
    (parseSeconds value).map fun seconds => { cc with maxAge := some seconds }
  else if name = "s-maxage".toList then
    (parseSeconds value).map fun seconds => { cc with sMaxage := some seconds }
  else if name = "max-stale".toList then
    (parseSeconds value).map fun seconds => { cc with maxStale := some seconds }
  else if name = "min-fresh".toList then
    (parseSeconds value).map fun seconds => { cc with minFresh := some seconds }
  else if name = "stale-while-revalidate".toList then
    (parseSeconds value).map fun seconds => { cc with staleWhileRevalidate := some seconds }
  else if name = "stale-if-error".toList then
    (parseSeconds value).map fun seconds => { cc with staleIfError := some seconds }
  -- These two are flags here as well: the fields that they name are not kept.
  else if name = "no-cache".toList then .ok { cc with noCache := true }
  else if name = "private".toList then .ok { cc with isPrivate := true }
  -- An unknown directive says nothing.
  else .ok cc

/-- What a directive without an argument asks for. -/
def setFlag (cc : CacheControl) (name : Str) : CacheControl :=
  if name = "no-cache".toList then { cc with noCache := true }
  else if name = "no-store".toList then { cc with noStore := true }
  else if name = "no-transform".toList then { cc with noTransform := true }
  else if name = "only-if-cached".toList then { cc with onlyIfCached := true }
  else if name = "must-revalidate".toList then { cc with mustRevalidate := true }
  else if name = "proxy-revalidate".toList then { cc with proxyRevalidate := true }
  else if name = "must-understand".toList then { cc with mustUnderstand := true }
  else if name = "public".toList then { cc with isPublic := true }
  else if name = "private".toList then { cc with isPrivate := true }
  else if name = "immutable".toList then { cc with isImmutable := true }
  -- Without a number any age is accepted.
  else if name = "max-stale".toList then { cc with maxStale := some (UInt64.ofNat u64Max) }
  else cc

/-- What one part of a header asks for. -/
def parseDirective (cc : CacheControl) (directive : Str) : Except CacheError CacheControl :=
  let directive := trim directive
  if directive.isEmpty then .ok cc
  else match splitOnce '=' directive with
    | some (name, value) =>
      let name := toLowercase (trim name)
      match stripQuotes (trim value) with
      | .error error => .error error
      | .ok value => cc.setArgument name value
    | none => .ok (cc.setFlag (toLowercase directive))

/-- The directives of a header. -/
def parse (input : Str) : Except CacheError CacheControl :=
  let input := trim input
  if input.isEmpty then .ok new else (input.splitOn ',').foldlM parseDirective new

/-- The directives as they are written, in the order of the fields. -/
def parts (cc : CacheControl) : List Str :=
  (cc.maxAge.map fun seconds => "max-age=".toList ++ Numerals.write 10 seconds.toNat).toList ++
  (cc.sMaxage.map fun seconds => "s-maxage=".toList ++ Numerals.write 10 seconds.toNat).toList ++
  (cc.maxStale.map fun seconds => if seconds = UInt64.ofNat u64Max then "max-stale".toList
    else "max-stale=".toList ++ Numerals.write 10 seconds.toNat).toList ++
  (cc.minFresh.map fun seconds => "min-fresh=".toList ++ Numerals.write 10 seconds.toNat).toList ++
  (cc.staleWhileRevalidate.map fun seconds =>
    "stale-while-revalidate=".toList ++ Numerals.write 10 seconds.toNat).toList ++
  (cc.staleIfError.map fun seconds =>
    "stale-if-error=".toList ++ Numerals.write 10 seconds.toNat).toList ++
  (if cc.noCache then ["no-cache".toList] else []) ++
  (if cc.noStore then ["no-store".toList] else []) ++
  (if cc.noTransform then ["no-transform".toList] else []) ++
  (if cc.onlyIfCached then ["only-if-cached".toList] else []) ++
  (if cc.mustRevalidate then ["must-revalidate".toList] else []) ++
  (if cc.proxyRevalidate then ["proxy-revalidate".toList] else []) ++
  (if cc.mustUnderstand then ["must-understand".toList] else []) ++
  (if cc.isPublic then ["public".toList] else []) ++
  (if cc.isPrivate then ["private".toList] else []) ++
  (if cc.isImmutable then ["immutable".toList] else [])

/-- The directives as a header. -/
def display (cc : CacheControl) : Str := ", ".toList.intercalate cc.parts

end CacheControl

end Http11

import Http11.Building
import Http11.Lib.Iteration
import Http11.Lib.Numerals
import Http11.Message

/-! The responses of the server: its pages, their codings, and the date they carry. -/

namespace Http11

/-- The constant for success, one of the registered statuses. -/
def StatusCode.ok : StatusCode := ⟨200, "OK", by decide⟩

/-- The constant for a method that is not implemented, one of the registered statuses. -/
def StatusCode.notImplemented : StatusCode := ⟨501, "Not Implemented", by decide⟩

namespace Server

/-- A leap year. -/
def isLeapYear (year : Nat) : Bool := (year % 4 == 0 && year % 100 != 0) || year % 400 == 0

/-- The number of days of a year. -/
def daysInYear (year : Nat) : Nat := if isLeapYear year then 366 else 365

/-- The numbers of days of the months of a year. -/
def daysInMonths (year : Nat) : List Nat :=
  [31, if isLeapYear year then 29 else 28, 31, 30, 31, 30, 31, 31, 30, 31, 30, 31]

/-- The loop over the years, which leaves the year and the days that remain in it. -/
def yearLoop : Iteration (Nat × Nat) (Nat × Nat) where
  body := fun (year, remaining) =>
    if remaining < daysInYear year then .inr (year, remaining)
    else .inl (year + 1, remaining - daysInYear year)
  size := fun (_, remaining) => remaining
  decreases := by
    rintro ⟨year, remaining⟩ ⟨next, left⟩ passed
    have positive : 0 < daysInYear year := by
      unfold daysInYear
      split <;> decide
    dsimp only at passed
    split at passed <;> cases passed
    dsimp only
    omega

/-- The month in which a day of the year lies, and the days of it that are over. -/
def monthOf (index : Nat) : List Nat → Nat → Nat × Nat
  | [], remaining => (0, remaining)
  | days :: rest, remaining =>
    if remaining < days then (index, remaining) else monthOf (index + 1) rest (remaining - days)

/-- The names of the days, from Sunday on. -/
def dayNames : List Str :=
  ["Sun".toList, "Mon".toList, "Tue".toList, "Wed".toList, "Thu".toList, "Fri".toList, "Sat".toList]

/-- The names of the months. -/
def monthNames : List Str :=
  ["Jan".toList, "Feb".toList, "Mar".toList, "Apr".toList, "May".toList, "Jun".toList,
    "Jul".toList, "Aug".toList, "Sep".toList, "Oct".toList, "Nov".toList, "Dec".toList]

/-- A time in seconds since 1970 as a date of the protocol. -/
def formatHttpDate (timestamp : Nat) : Str :=
  let daysSinceEpoch := timestamp / 86400
  -- The first day of 1970 was a Thursday.
  let dayOfWeek := (daysSinceEpoch + 4) % 7
  let (year, remainingDays) := yearLoop.run (1970, daysSinceEpoch)
  let (month, remainingDays) := monthOf 0 (daysInMonths year) remainingDays
  let day := remainingDays + 1
  let timeOfDay := timestamp % 86400
  let hour := timeOfDay / 3600
  let minute := timeOfDay % 3600 / 60
  let second := timeOfDay % 60
  dayNames[dayOfWeek]?.getD [] ++ ", ".toList ++ Numerals.writePadded 10 2 day ++ ' ' ::
    (monthNames[month]?.getD [] ++ ' ' :: (Numerals.write 10 year ++ ' ' ::
    (Numerals.writePadded 10 2 hour ++ ':' :: (Numerals.writePadded 10 2 minute ++ ':' ::
    (Numerals.writePadded 10 2 second ++ " GMT".toList)))))

/-- What the server takes from outside: its clock and the codings of its libraries. -/
structure Surroundings where
  /-- The time in seconds since 1970 at which a request of some number is answered. -/
  now : Nat → Nat
  /-- The coding picked from the value of an Accept-Encoding field. -/
  selectEncoding : Str → Option Str
  /-- A body in a coding, unless that fails. -/
  compressBody : Bytes → Str → Option Bytes

/-- Surroundings at one time, in which nothing is coded. -/
def Surroundings.uncoded (now : Nat) : Surroundings where
  now := fun _ => now
  selectEncoding := fun _ => none
  compressBody := fun _ _ => none

/-- The value of Content-Encoding for a coding. -/
def encodingHeader (encoding : Str) : Str :=
  if encoding = "zstd".toList then "zstd".toList
  else if encoding = "br".toList then "br".toList
  else if encoding = "gzip".toList || encoding = "x-gzip".toList then "gzip".toList
  else "identity".toList

/-- The body that is sent and its coding, where coding it makes it shorter. -/
def codedBody (surroundings : Surroundings) (body : Bytes) (encoding : Option Str) :
    Bytes × Option Str :=
  match encoding with
  | none => (body, none)
  | some encoding =>
    match surroundings.compressBody body encoding with
    -- Without the coder the body is sent as it is.
    | none => (body, none)
    | some compressed =>
      if compressed.length < body.length then (compressed, some (encodingHeader encoding))
      else (body, none)

/-- A response with a body in a coding. -/
def buildCompressedResponse (surroundings : Surroundings) (status : StatusCode) (contentType : Str)
    (body : Bytes) (date : Str) (isHead : Bool) (encoding : Option Str) :
    Except EncodeError Response := do
  let (finalBody, contentEncoding) := codedBody surroundings body encoding
  let response ← Response.withStatus status
  let response ← response.header "Date".toList date
  let response ← response.header "Content-Type".toList contentType
  let response ← response.header "Content-Length".toList (Numerals.write 10 finalBody.length)
  let response ← response.header "Server".toList "shiguredo_http11/0.1.0".toList
  let response ← response.header "Vary".toList "Accept-Encoding".toList
  let response ← match contentEncoding with
    | some encoding => response.header "Content-Encoding".toList encoding
    | none => pure response
  -- The length stays that of the body, also where the body is left out.
  return (response.setBody finalBody).setOmitBody isHead

/-- The end of the connection is announced. -/
def addConnectionHeaders (response : Response) (shouldKeepAlive : Bool) :
    Except EncodeError Response :=
  if shouldKeepAlive then .ok response
  else response.header "Connection".toList "close".toList

/-- The page of the root. -/
def welcomePage : Str :=
  ("<!DOCTYPE html>\n<html>\n<head><title>shiguredo_http11 Server</title></head>\n<body>\n" ++
    "<h1>Welcome to shiguredo_http11 Server</h1>\n" ++
    "<p>This server is powered by shiguredo_http11 library.</p>\n<ul>\n" ++
    "<li><a href=\"/info\">/info</a> - Server information</li>\n" ++
    "<li><a href=\"/echo\">/echo</a> - Echo request details</li>\n</ul>\n</body>\n</html>\n").toList

/-- The page about the server. -/
def infoPage (now : Nat) : Str :=
  "\x7b\"server\":\"shiguredo_http11\",\"version\":\"0.1.0\",\"timestamp\":".toList ++
    Numerals.write 10 now ++ "\x7d".toList

/-- The page about the request: its parts, and its body when it is text. -/
def echoPage (request : Request) : Str :=
  let start := "Method: ".toList ++ request.method ++ "\nURI: ".toList ++ request.uri ++
    "\nVersion: ".toList ++ request.version ++ "\n\nHeaders:\n".toList
  let fields := request.headers.flatMap fun (name, value) =>
    "  ".toList ++ name ++ ": ".toList ++ value ++ "\n".toList
  let content := match request.body with
    -- An empty body is shown like none.
    | none | some [] => []
    | some body => "\nBody (".toList ++ Numerals.write 10 body.length ++ " bytes):\n".toList ++
        match Utf8.decode body with
        | .ok text => text
        | .error _ => "[binary data]".toList
  start ++ fields ++ content

/-- The response to a request that was received at some time. -/
def buildResponse (surroundings : Surroundings) (now : Nat) (request : Request)
    (shouldKeepAlive : Bool) : Except EncodeError Response := do
  let date := formatHttpDate now
  let isHead := eqIgnoreAsciiCase request.method "HEAD".toList
  let encoding := (getHeader request.headers "Accept-Encoding".toList).bind
    surroundings.selectEncoding
  let response ←
    if request.uri = "/".toList then
      buildCompressedResponse surroundings .ok "text/html; charset=utf-8".toList
        (Utf8.encode welcomePage) date isHead encoding
    else if request.uri = "/info".toList then
      buildCompressedResponse surroundings .ok "application/json".toList
        (Utf8.encode (infoPage now)) date isHead encoding
    else if request.uri = "/echo".toList then
      if isHead then do
        -- The page depends on the request, so that its length is not known.
        let response ← Response.withStatus .ok
        let response ← response.header "Date".toList date
        let response ← response.header "Content-Type".toList "text/plain; charset=utf-8".toList
        let response ← response.header "Content-Length".toList "0".toList
        let response ← response.header "Server".toList "shiguredo_http11/0.1.0".toList
        pure (response.setOmitBody true)
      else
        buildCompressedResponse surroundings .ok "text/plain; charset=utf-8".toList
          (Utf8.encode (echoPage request)) date false encoding
    else
      buildCompressedResponse surroundings .notFound "text/plain".toList
        (Utf8.encode "404 Not Found\n".toList) date isHead encoding
  addConnectionHeaders response shouldKeepAlive

/-- The response to a request for a tunnel. -/
def rejectTunnel : Except EncodeError Response := do
  let response ← Response.withStatus .notImplemented
  let response ← response.header "Content-Length".toList "0".toList
  response.header "Connection".toList "close".toList

end Server

end Http11

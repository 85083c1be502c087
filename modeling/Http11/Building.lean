import Http11.Encoder
import Http11.Lib.Splitting

/-! Building messages: changes in place, registered statuses, and the lines of what is encoded. -/

namespace Http11

/-- One more header field, added once its name and its value are checked. -/
def pushHeader (headers : Headers) (name value : Str) : Except EncodeError Unit × Headers :=
  if !isValidHeaderName name then (.error (.invalidHeaderName name), headers)
  else if !isValidFieldValue value then (.error (.invalidHeaderValue name value), headers)
  else (.ok (), headers ++ [(name, value)])

/-- A header field in the place of all of its name, once its name and its value are checked. -/
def replaceHeader (headers : Headers) (name value : Str) : Except EncodeError Unit × Headers :=
  if !isValidHeaderName name then (.error (.invalidHeaderName name), headers)
  else if !isValidFieldValue value then (.error (.invalidHeaderValue name value), headers)
  else
    -- The fields of that name are dropped only now.
    let retained := headers.filter fun field => !eqIgnoreAsciiCase field.1 name
    (.ok (), retained ++ [(name, value)])

/-- A change of a message in place. -/
inductive Mutation where
  /-- A header field added. -/
  | addHeader (name value : Str)
  /-- A header field in the place of all of its name. -/
  | setHeader (name value : Str)
  /-- A body given. -/
  | setBody (body : Bytes)
  /-- The body taken away. -/
  | clearBody
  deriving DecidableEq, Repr

namespace Request

/-- The request after a change in place, and whether the change was made. -/
def mutate (request : Request) : Mutation → Except EncodeError Unit × Request
  | .addHeader name value =>
    let (result, headers) := pushHeader request.headers name value
    (result, { request with headers })
  | .setHeader name value =>
    let (result, headers) := replaceHeader request.headers name value
    (result, { request with headers })
  | .setBody body => (.ok (), request.setBody body)
  | .clearBody => (.ok (), request.clearBody)

/-- The builder method for a header field, which gives up the request on failure. -/
def header (request : Request) (name value : Str) : Except EncodeError Request :=
  match request.mutate (.addHeader name value) with
  | (.ok (), request) => .ok request
  | (.error error, _) => .error error

/-- The requests that a program comes to with the constructors, the builders and the mutators. -/
inductive Reachable : Request → Prop where
  /-- A fresh request. -/
  | new {method uri : Str} {request : Request} : new method uri = .ok request → Reachable request
  /-- A fresh request of a given version. -/
  | withVersion {method uri version : Str} {request : Request} :
    withVersion method uri version = .ok request → Reachable request
  /-- A field that a builder has added. -/
  | header {request next : Request} {name value : Str} :
    Reachable request → request.header name value = .ok next → Reachable next
  /-- A body that a builder has given. -/
  | body {request : Request} (body : Bytes) : Reachable request → Reachable (request.setBody body)
  /-- A body that a builder has taken away. -/
  | withoutBody {request : Request} : Reachable request → Reachable request.clearBody
  /-- A change in place, whether it was made or not. -/
  | mutate {request : Request} (mutation : Mutation) :
    Reachable request → Reachable (request.mutate mutation).2

end Request

/-- The registered statuses and their reason phrases. -/
def registeredStatuses : List (Nat × String) :=
  [(100, "Continue"), (101, "Switching Protocols"), (102, "Processing"), (103, "Early Hints"),
    (200, "OK"), (201, "Created"), (202, "Accepted"), (203, "Non-Authoritative Information"),
    (204, "No Content"), (205, "Reset Content"), (206, "Partial Content"), (207, "Multi-Status"),
    (208, "Already Reported"), (226, "IM Used"), (300, "Multiple Choices"),
    (301, "Moved Permanently"), (302, "Found"), (303, "See Other"), (304, "Not Modified"),
    (305, "Use Proxy"), (307, "Temporary Redirect"), (308, "Permanent Redirect"),
    (400, "Bad Request"), (401, "Unauthorized"), (402, "Payment Required"), (403, "Forbidden"),
    (404, "Not Found"), (405, "Method Not Allowed"), (406, "Not Acceptable"),
    (407, "Proxy Authentication Required"), (408, "Request Timeout"), (409, "Conflict"),
    (410, "Gone"), (411, "Length Required"), (412, "Precondition Failed"),
    (413, "Content Too Large"), (414, "URI Too Long"), (415, "Unsupported Media Type"),
    (416, "Range Not Satisfiable"), (417, "Expectation Failed"), (418, "I'm a teapot"),
    (421, "Misdirected Request"), (422, "Unprocessable Content"), (423, "Locked"),
    (424, "Failed Dependency"), (425, "Too Early"), (426, "Upgrade Required"),
    (428, "Precondition Required"), (429, "Too Many Requests"),
    (431, "Request Header Fields Too Large"), (451, "Unavailable For Legal Reasons"),
    (500, "Internal Server Error"), (501, "Not Implemented"), (502, "Bad Gateway"),
    (503, "Service Unavailable"), (504, "Gateway Timeout"), (505, "HTTP Version Not Supported"),
    (506, "Variant Also Negotiates"), (507, "Insufficient Storage"), (508, "Loop Detected"),
    (510, "Not Extended"), (511, "Network Authentication Required")]

/-- A registered status. -/
structure StatusCode where
  /-- The status code. -/
  code : Nat
  /-- The reason phrase that is registered for it. -/
  canonicalReason : String
  /-- It is one of the constants. -/
  registered : (code, canonicalReason) ∈ registeredStatuses

/-- The constant for a missing resource, one of them. -/
def StatusCode.notFound : StatusCode := ⟨404, "Not Found", by decide⟩

namespace Response

/-- A response with a registered status, which no check refuses. -/
def withStatus (status : StatusCode) : Except EncodeError Response :=
  withVersion http11 status.code status.canonicalReason.toList

/-- The response after a change in place, and whether the change was made. -/
def mutate (response : Response) : Mutation → Except EncodeError Unit × Response
  | .addHeader name value =>
    let (result, headers) := pushHeader response.headers name value
    (result, { response with headers })
  | .setHeader name value =>
    let (result, headers) := replaceHeader response.headers name value
    (result, { response with headers })
  | .setBody body => (.ok (), response.setBody body)
  | .clearBody => (.ok (), response.clearBody)

/-- The builder method for a header field, which gives up the response on failure. -/
def header (response : Response) (name value : Str) : Except EncodeError Response :=
  match response.mutate (.addHeader name value) with
  | (.ok (), response) => .ok response
  | (.error error, _) => .error error

/-- The responses that a program comes to with the constructors, the builders and the mutators. -/
inductive Reachable : Response → Prop where
  /-- A fresh response. -/
  | new {statusCode : Nat} {reasonPhrase : Str} {response : Response} :
    new statusCode reasonPhrase = .ok response → Reachable response
  /-- A fresh response with a registered status. -/
  | withStatus {status : StatusCode} {response : Response} :
    withStatus status = .ok response → Reachable response
  /-- A fresh response of a given version. -/
  | withVersion {version : Str} {statusCode : Nat} {reasonPhrase : Str} {response : Response} :
    withVersion version statusCode reasonPhrase = .ok response → Reachable response
  /-- A field that a builder has added. -/
  | header {response next : Response} {name value : Str} :
    Reachable response → response.header name value = .ok next → Reachable next
  /-- A body that a builder has given. -/
  | body {response : Response} (body : Bytes) :
    Reachable response → Reachable (response.setBody body)
  /-- A body that a builder has taken away. -/
  | withoutBody {response : Response} : Reachable response → Reachable response.clearBody
  /-- The body kept back, or not, by a builder or in place. -/
  | omitBody {response : Response} (omit_ : Bool) :
    Reachable response → Reachable (response.setOmitBody omit_)
  /-- A change in place, whether it was made or not. -/
  | mutate {response : Response} (mutation : Mutation) :
    Reachable response → Reachable (response.mutate mutation).2

end Response

/-- The lines of what stands before the first empty line, and what follows that line. -/
def headLines (wire : Bytes) : Option (List Bytes × Bytes) :=
  (Splitting.splitFirst (crlf ++ crlf) wire).map fun (head, rest) =>
    (Splitting.splitEvery crlf head, rest)

/-- The line of a field. -/
def fieldLine (field : Str × Str) : Bytes :=
  Utf8.encode field.1 ++ Utf8.encode ": ".toList ++ Utf8.encode field.2

/-- The line of a length that the encoder adds. -/
def lengthLine (length : Nat) : Bytes :=
  Utf8.encode "Content-Length: ".toList ++ writeUsizeDecimal length

end Http11

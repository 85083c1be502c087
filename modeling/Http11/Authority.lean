import Http11.Decoder.Request
import Http11.Encoder

/-! The grammar of hosts and ports, and the targets of requests that open a tunnel. -/

namespace Http11

/-- Bytes that are allowed, and percent signs before two digits. -/
inductive IsEncoded (allowed : UInt8 → Bool) : Bytes → Prop where
  /-- There may be none. -/
  | empty : IsEncoded allowed []
  /-- A byte that stands for itself. -/
  | plain {byte : UInt8} {rest : Bytes} (kept : allowed byte = true) :
    IsEncoded allowed rest → IsEncoded allowed (byte :: rest)
  /-- A byte that is encoded. -/
  | percent {high low : UInt8} {rest : Bytes}
    (digits : isAsciiHexdigit high = true ∧ isAsciiHexdigit low = true) :
    IsEncoded allowed rest → IsEncoded allowed (0x25 :: high :: low :: rest)

/-- A byte that stands for itself in a registered name. -/
def isNameByte (byte : UInt8) : Bool := isUnreservedByte byte || isSubDelimByte byte

/-- A byte that stands for itself in the name of a user. -/
def isUserByte (byte : UInt8) : Bool :=
  isUnreservedByte byte || isSubDelimByte byte || byte == 0x3A

/-- The bytes of a registered name. -/
def IsRegName (bytes : Bytes) : Prop := IsEncoded isNameByte bytes

/-- The bytes of an address in a future format. -/
def IsIpvFuture (bytes : Bytes) : Prop :=
  ∃ version digits address, isOneOf "vV" version = true ∧
    (digits ≠ [] ∧ ∀ byte ∈ digits, isAsciiHexdigit byte = true) ∧
    (address ≠ [] ∧ ∀ byte ∈ address, isIpvfutureChar byte = true) ∧
    bytes = version :: (digits ++ 0x2E :: address)

/-- An address between brackets. -/
def IsIpLiteral (host : Str) : Prop :=
  ∃ inner, host = '[' :: (inner ++ [']']) ∧
    (isIpv6Addr inner = true ∨ IsIpvFuture (Utf8.encode inner))

/-- The host of a URI: a registered name, which has no colon, or an address in brackets. -/
def IsUriHost (host : Str) : Prop := IsRegName (Utf8.encode host) ∨ IsIpLiteral host

/-- A port: digits that denote a number of sixteen bits. -/
def IsPort (port : Str) : Prop := IsDigits port ∧ Numerals.value 10 port ≤ u16Max

/-- A host and a port. -/
def IsAuthorityForm (uri : Str) : Prop :=
  ∃ host port, IsUriHost host ∧ IsPort port ∧ uri = host ++ ':' :: port

/-- A host and two ports, in the characters of a target. -/
def IsTwicePorted (uri : Str) : Prop :=
  isValidRequestTarget uri = true ∧ ∃ host first second, host ≠ [] ∧ IsUriHost host ∧
    IsPort first ∧ IsPort second ∧ uri = host ++ ':' :: (first ++ ':' :: second)

/-- The line of a request that opens a tunnel. -/
def connectLine (uri version : Str) : Str := "CONNECT".toList ++ ' ' :: (uri ++ ' ' :: version)

/-- A decoder accepts the line of a request that opens a tunnel to a target. -/
def RequestDecoder.Connects (uri : Str) : Prop :=
  ∃ (version : Str) (decoder : RequestDecoder), findLine (Utf8.encode (connectLine uri version)) = none ∧
    decoder.phase = .startLine ∧ decoder.buf = Utf8.encode (connectLine uri version) ++ crlf ∧
    decoder.decodeHeaders.1 = .ok none

/-- An encoder accepts a request that opens a tunnel to a target. -/
def Request.Connects (uri : Str) : Prop :=
  ∃ request : Request, request.method = "CONNECT".toList ∧ request.uri = uri ∧
    ((encodeRequest request).isOk = true ∨ (encodeRequestHeaders request).isOk = true)

end Http11

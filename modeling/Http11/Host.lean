import Http11.Validate

/-! The host of a request: registered names, addresses and ports. -/

namespace Http11

/-- Why a host is malformed. -/
inductive HostError where
  /-- There is no host. -/
  | empty
  /-- White space stands inside it. -/
  | invalidFormat
  /-- The name or the address is malformed. -/
  | invalidHost
  /-- The port is malformed. -/
  | invalidPort
  deriving DecidableEq, Repr

/-- A host name or address with an optional port. -/
structure Host where
  /-- The name, or an address with its brackets. -/
  host : Str
  /-- The port. -/
  port : Option Nat
  deriving DecidableEq, Repr

/-- The rest after a number of bounded length and value at the front of a string. -/
def readNumber (radix maxDigits maxValue : Nat) (allowZeroPrefix : Bool) (text : Str) :
    Option Str :=
  let digits := text.takeWhile fun char => (Numerals.digitValue char).any (· < radix)
  let value := digits.foldl (fun value char => value * radix + (Numerals.digitValue char).getD 0) 0
  if maxDigits < digits.length then none
  else if digits.isEmpty then none
  -- A zero stands in front only when it stands alone.
  else if !allowZeroPrefix && text.head? == some '0' && 1 < digits.length then none
  else if value ≤ maxValue then some (text.drop digits.length)
  else none

/-- A part of an address, with a separator before every part but the first. -/
def readSeparator (separator : Char) (index : Nat) (inner : Str → Option Str) (text : Str) :
    Option Str :=
  if index = 0 then inner text
  else match text with
    | char :: rest => if char = separator then inner rest else none
    | [] => none

/-- The rest after a dotted address of four numbers. -/
def readIpv4Addr (text : Str) : Option Str :=
  [0, 1, 2, 3].foldlM (fun text index => readSeparator '.' index (readNumber 10 3 255 false) text)
    text

/-- The groups of an address up to a limit: how many, whether a dotted part ended them, the rest. -/
def readGroups (limit : Nat) : Nat → Str → Nat × Bool × Str
  | 0, text => (limit, false, text)
  | left + 1, text =>
    let index := limit - (left + 1)
    -- A dotted address takes the place of two groups.
    match if 0 < left then readSeparator ':' index readIpv4Addr text else none with
    | some rest => (index + 2, true, rest)
    | none =>
      match readSeparator ':' index (readNumber 16 4 65535 true) text with
      | some rest => readGroups limit left rest
      | none => (index, false, text)

/-- A dotted address. -/
def isIpv4Addr (text : Str) : Bool :=
  (Utf8.encode text).length ≤ 15 && readIpv4Addr text == some []

/-- An address of eight groups, a run of zero groups of which may be left out. -/
def isIpv6Addr (text : Str) : Bool :=
  match readGroups 8 8 text with
  | (headSize, headIpv4, rest) =>
    if headSize = 8 then rest.isEmpty
    else if headIpv4 then false
    else match rest with
      | ':' :: ':' :: rest => (readGroups (7 - headSize) (7 - headSize) rest).2.2.isEmpty
      | _ => false

/-- A byte of a future address format. -/
def isIpvfutureChar (byte : UInt8) : Bool :=
  isUnreservedByte byte || isSubDelimByte byte || byte == 0x3A

/-- An address in a future format: a version in hexadecimal digits, a dot and an address. -/
def isValidIpvfuture (text : Str) : Bool :=
  match Utf8.encode text with
  | [] => false
  | version :: rest =>
    2 ≤ rest.length && isOneOf "vV" version && !(rest.takeWhile isAsciiHexdigit).isEmpty &&
      match rest.dropWhile isAsciiHexdigit with
      | dot :: address => dot == 0x2E && !address.isEmpty && address.all isIpvfutureChar
      | [] => false

/-- An address between brackets. -/
def isValidIpv6OrFuture (text : Str) : Bool :=
  match text with
  | 'v' :: _ | 'V' :: _ => isValidIpvfuture text
  | _ => isIpv6Addr text

/-- The bytes of a registered name. -/
def isRegNameBytes : Bytes → Bool
  | [] => true
  | byte :: rest =>
    if isUnreservedByte byte || isSubDelimByte byte then isRegNameBytes rest
    else if byte == 0x25 then
      match rest with
      | high :: low :: rest => isAsciiHexdigit high && isAsciiHexdigit low && isRegNameBytes rest
      | _ => false
    else false

/-- A registered name. -/
def isValidRegName (text : Str) : Bool := !text.isEmpty && isRegNameBytes (Utf8.encode text)

/-- A port number. -/
def parsePort (text : Str) : Except HostError Nat :=
  if text.isEmpty || !text.all Char.isDigit then .error .invalidPort
  else match parseU16 text with
    | some port => .ok port
    | none => .error .invalidPort

/-- A host in brackets with its port. -/
def parseIpv6Host (input : Str) : Except HostError Host :=
  -- The first character is the opening bracket.
  match splitOnce ']' (input.drop 1) with
  | none => .error .invalidHost
  | some (inner, rest) => do
    let port ← match rest with
      | [] => Except.ok none
      | ':' :: port => (parsePort port).map some
      | _ => .error .invalidHost
    if inner.isEmpty then .error .invalidHost
    else if !isValidIpv6OrFuture inner then .error .invalidHost
    else .ok ⟨input.take (inner.length + 2), port⟩

/-- A name and the port after it. -/
def splitHostPort (input : Str) : Except HostError (Str × Option Nat) :=
  match rsplitOnce ':' input with
  | some (host, port) =>
    if host.contains ':' then .error .invalidHost
    else if port.isEmpty then .error .invalidPort
    else (parsePort port).map fun port => (host, some port)
  | none => .ok (input, none)

/-- The host of a header value or of an authority. -/
def Host.parse (input : Str) : Except HostError Host :=
  let input := trimOws input
  if input.isEmpty then .error .empty
  else if input.any isWhitespace then .error .invalidFormat
  else if input.head? == some '[' then parseIpv6Host input
  else do
    let (host, port) ← splitHostPort input
    -- No user stands in front of a host here.
    if host.isEmpty || host.contains '@' then .error .invalidHost
    else if isIpv4Addr host then .ok ⟨host, port⟩
    else if !isValidRegName host then .error .invalidHost
    else .ok ⟨host, port⟩

/-- A host with its port as it is written. -/
def Host.display (host : Host) : Str :=
  match host.port with
  | some port => host.host ++ ':' :: Numerals.write 10 port
  | none => host.host

end Http11

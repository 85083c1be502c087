import Http11.Decoder.Response

/-! The grammar of status lines, and what a decoder of responses makes of one. -/

namespace Http11

/-- A protocol version: a token, a slash, digits, a dot and digits. -/
def IsVersion (version : Str) : Prop :=
  ∃ name major minor, isToken name = true ∧ IsDigits major ∧ IsDigits minor ∧
    version = name ++ '/' :: (major ++ '.' :: minor)

/-- A byte of a reason phrase: a tab, a space, a visible character or one outside ASCII. -/
def IsReasonByte (byte : UInt8) : Prop :=
  byte = 0x09 ∨ (0x20 ≤ byte ∧ byte ≤ 0x7E) ∨ 0x80 ≤ byte

/-- The words of a status line, whose status is written in some way. -/
structure StatusWords (text version status digits reason : Str) : Prop where
  /-- The version is one. -/
  versioned : IsVersion version
  /-- The status code has three digits. -/
  three : digits.length = 3 ∧ ∀ char ∈ digits, char.isDigit = true
  /-- It is in one of the five classes. -/
  range : 100 ≤ Numerals.value 10 digits ∧ Numerals.value 10 digits ≤ 599
  /-- The reason phrase can be printed. -/
  printable : ∀ byte ∈ Utf8.encode reason, IsReasonByte byte
  /-- One space stands between the words, and the reason phrase may be left out. -/
  line : text = version ++ ' ' :: status ∧ reason = [] ∨
    text = version ++ ' ' :: (status ++ ' ' :: reason)

/-- A status line: a version, three digits and a reason phrase. -/
def IsStatusLine (text version digits reason : Str) : Prop :=
  StatusWords text version digits digits reason

/-- A status line but for a plus sign or zeros in front of its three digits. -/
def IsPadded (text : Str) : Prop :=
  ∃ version pad digits reason zeros, (∀ char ∈ zeros, char = '0') ∧
    (pad = zeros ∨ pad = '+' :: zeros) ∧ pad ≠ [] ∧
    StatusWords text version (pad ++ digits) digits reason

namespace ResponseDecoder

/-- What more input leads to, as long as no head is handed out. -/
inductive Waits (start : ResponseDecoder) : ResponseDecoder → Prop where
  /-- Nothing has happened yet. -/
  | start : Waits start start
  /-- Input arrives. -/
  | feed {decoder : ResponseDecoder} (data : Bytes) : Waits start decoder →
    Waits start (decoder.feed data).2
  /-- A head is asked for in vain. -/
  | decodeHeaders {decoder : ResponseDecoder} : Waits start decoder →
    (∀ decoded, decoder.decodeHeaders.1 ≠ .ok (some decoded)) →
      Waits start decoder.decodeHeaders.2
  /-- The method of the request becomes known. -/
  | setRequestMethod {decoder : ResponseDecoder} (method : Str) : Waits start decoder →
    Waits start (decoder.setRequestMethod method)

/-- A line is accepted as a status line when it is one, and its head is made of its words. -/
def ReadsStatusLine (line : Bytes) : Prop :=
  ∀ decoder : ResponseDecoder, decoder.phase = .startLine → decoder.buf = line ++ crlf →
    (decoder.decodeHeaders.1 = .ok none ↔
      ∃ text version digits reason, lineText line = .ok text ∧
        IsStatusLine text version digits reason) ∧
    (decoder.decodeHeaders.1 = .ok none → ∀ later, decoder.decodeHeaders.2.Waits later →
      ∀ head bodyKind, later.decodeHeaders.1 = .ok (some (head, bodyKind)) →
        ∃ text digits, lineText line = .ok text ∧
          IsStatusLine text head.version digits head.reasonPhrase ∧
          head.statusCode = Numerals.value 10 digits)

end ResponseDecoder

end Http11

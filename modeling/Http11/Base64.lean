import Http11.Text

/-! Bytes as text in groups of six bits, padded to whole groups of four characters. -/

namespace Http11

namespace Base64

/-- Why text is refused. -/
inductive Base64Error where
  /-- A character is outside of the alphabet. -/
  | invalidCharacter
  /-- The length, the padding or the bits left over are wrong. -/
  | invalidPadding
  deriving DecidableEq, Repr

/-- The alphabet, by the value of six bits. -/
def alphabet : Str := "ABCDEFGHIJKLMNOPQRSTUVWXYZabcdefghijklmnopqrstuvwxyz0123456789+/".toList

/-- The character of six bits. -/
def alphabetChar (value : Nat) : Char := alphabet.getD value '='

/-- The character of six bits, or padding where there is no byte. -/
def charOrPadding (byte : Option UInt8) (value : Nat) : Char :=
  if byte.isSome then alphabetChar value else '='

/-- Four characters for up to three bytes. -/
def encodeGroup (b0 : UInt8) (b1 b2 : Option UInt8) : Str :=
  let n := b0.toNat <<< 16 ||| (b1.getD 0).toNat <<< 8 ||| (b2.getD 0).toNat
  [alphabetChar (n >>> 18 &&& 0x3F), alphabetChar (n >>> 12 &&& 0x3F),
    charOrPadding b1 (n >>> 6 &&& 0x3F), charOrPadding b2 (n &&& 0x3F)]

/-- Bytes as text. -/
def encode : Bytes → Str
  | b0 :: b1 :: b2 :: rest => encodeGroup b0 (some b1) (some b2) ++ encode rest
  | [b0, b1] => encodeGroup b0 (some b1) none
  | [b0] => encodeGroup b0 none none
  | [] => []

/-- The white space that is ignored between characters. -/
def isIgnored (char : Char) : Bool :=
  char == ' ' || char == '\t' || char == '\n' || char == '\r'

/-- A character that is not ignored. -/
def isKept (char : Char) : Bool := !isIgnored char

/-- The characters without white space, as bytes. -/
def normalized : Str → Except Base64Error Bytes
  | [] => .ok []
  | char :: rest =>
    if isIgnored char then normalized rest
    else if 0x80 ≤ char.toNat then .error .invalidCharacter
    else (normalized rest).map (UInt8.ofNat char.toNat :: ·)

/-- The six bits of a character. -/
def value (byte : UInt8) : Option Nat :=
  if 0x41 ≤ byte && byte ≤ 0x5A then some (byte.toNat - 0x41)
  else if 0x61 ≤ byte && byte ≤ 0x7A then some (byte.toNat - 0x61 + 26)
  else if 0x30 ≤ byte && byte ≤ 0x39 then some (byte.toNat - 0x30 + 52)
  else if byte == 0x2B then some 62
  else if byte == 0x2F then some 63
  else none

/-- The bytes that are complete, and the bits left over, behind some bits that are pending. -/
def decodeData (buf bits : Nat) : Bytes → Except Base64Error (Bytes × Nat)
  | [] => .ok ([], buf)
  | byte :: rest =>
    match value byte with
    | none => .error .invalidCharacter
    | some val =>
      -- Six more bits, of which eight make a byte.
      let buf := buf <<< 6 ||| val
      let bits := bits + 6
      if 8 ≤ bits then
        (decodeData (buf &&& (1 <<< (bits - 8) - 1)) (bits - 8) rest).map
          fun (result, left) => (UInt8.ofNat (buf >>> (bits - 8)) :: result, left)
      else decodeData buf bits rest

/-- The padding that suits the characters of the last group. -/
def isValidPadding (padCount lastBlockChars : Nat) : Bool :=
  match padCount with
  | 0 => lastBlockChars == 0
  | 1 => lastBlockChars == 3
  | 2 => lastBlockChars == 2
  | _ => false

/-- Text without white space as bytes. -/
def decodeNormalized (normalized : Bytes) : Except Base64Error Bytes :=
  if normalized.isEmpty then .ok []
  else
    let padCount := (normalized.reverse.takeWhile fun byte => byte == 0x3D).length
    if 2 < padCount then .error .invalidPadding
    else if normalized.length % 4 ≠ 0 then .error .invalidPadding
    else
      let data := normalized.take (normalized.length - padCount)
      if !isValidPadding padCount (data.length % 4) then .error .invalidPadding
      else match decodeData 0 0 data with
        | .error error => .error error
        -- The bits behind the last byte have to be zero.
        | .ok (result, left) => if left ≠ 0 then .error .invalidPadding else .ok result

/-- Text as bytes, where white space is ignored. -/
def decode (input : Str) : Except Base64Error Bytes := do
  decodeNormalized (← normalized input)

end Base64

end Http11

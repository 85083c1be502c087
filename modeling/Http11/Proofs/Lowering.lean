import Http11.Proofs.AuthParams
import Http11.Proofs.UriParts

/-! Hosts and authorities stay what they are in lower case. -/

namespace Http11

/-- A byte in lower case, if it is an ASCII letter. -/
def lowerByte (byte : UInt8) : UInt8 :=
  if 0x41 ≤ byte ∧ byte ≤ 0x5A then byte + 0x20 else byte

/-- Characters past ASCII have no lower case of their own. -/
theorem toLower_high {char : Char} (high : 0x80 ≤ char.toNat) : char.toLower = char := by
  unfold Char.toLower
  refine dif_neg fun upper => ?_
  -- The last letter of ASCII is far below.
  have below : char.toNat ≤ 90 := upper.2
  omega

/-- Lower case does not change what takes no note of it in ASCII. -/
theorem toLower_same {Value : Type} (told : Char → Value)
    (checked : ∀ value < 128, told (Char.ofNat value).toLower = told (Char.ofNat value))
    (char : Char) : told char.toLower = told char := by
  by_cases ascii : char.toNat < 0x80
  · exact forall_ascii (motive := fun char => told char.toLower = told char) checked ascii
  · rw [toLower_high (by omega)]

/-- In lower case a text has the bytes in lower case. -/
theorem encode_toAsciiLowercase (text : Str) :
    Utf8.encode (toAsciiLowercase text) = (Utf8.encode text).map lowerByte := by
  induction text with
  | nil => rfl
  | cons char text ih =>
    have each : String.utf8EncodeChar char.toLower = (String.utf8EncodeChar char).map lowerByte := by
      by_cases ascii : char.toNat < 0x80
      · exact forall_ascii (motive := fun char => String.utf8EncodeChar char.toLower =
          (String.utf8EncodeChar char).map lowerByte) (by decide) ascii
      · -- All bytes of other characters are past ASCII, too.
        rw [toLower_high (by omega)]
        have kept : ∀ byte ∈ String.utf8EncodeChar char, lowerByte byte = id byte := by
          intro byte inside
          have high := Utf8.le_of_mem_encodeChar (by omega) inside
          refine if_neg fun upper => ?_
          have below : byte.toNat ≤ 0x5A := upper.2
          omega
        rw [List.map_congr_left kept, List.map_id]
    rw [toAsciiLowercase, List.map_cons, Utf8.encode_cons, Utf8.encode_cons, List.map_append, each]
    exact congrArg _ ih

/-- What is in lower case stays as it is. -/
theorem toAsciiLowercase_idempotent (text : Str) :
    toAsciiLowercase (toAsciiLowercase text) = toAsciiLowercase text := by
  have each : ∀ char : Char, char.toLower.toLower = char.toLower :=
    toLower_same Char.toLower (by decide)
  rw [toAsciiLowercase, toAsciiLowercase, List.map_map]
  exact List.map_congr_left fun char _ => each char

/-- Texts are lowered one after the other. -/
theorem toAsciiLowercase_append (front back : Str) :
    toAsciiLowercase (front ++ back) = toAsciiLowercase front ++ toAsciiLowercase back :=
  List.map_append

/-- Digits have the same value in lower case. -/
theorem digitValue_toLower (char : Char) :
    Numerals.digitValue char.toLower = Numerals.digitValue char :=
  toLower_same Numerals.digitValue (by decide) char

/-- A reader that reads the same in lower case. -/
def IgnoresCase (reader : Str → Option Str) : Prop :=
  ∀ text, reader (toAsciiLowercase text) = (reader text).map toAsciiLowercase

/-- Numbers are read in lower case as they are. -/
theorem readNumber_ignoresCase (radix maxDigits maxValue : Nat) (allowZeroPrefix : Bool) :
    IgnoresCase (readNumber radix maxDigits maxValue allowZeroPrefix) := by
  intro text
  have digit : (fun char => (Numerals.digitValue char).any (· < radix)) ∘ Char.toLower =
      fun char => (Numerals.digitValue char).any (· < radix) := by
    funext char
    rw [Function.comp, digitValue_toLower]
  have digits : (toAsciiLowercase text).takeWhile
      (fun char => (Numerals.digitValue char).any (· < radix)) =
      (text.takeWhile fun char => (Numerals.digitValue char).any (· < radix)).map Char.toLower := by
    rw [toAsciiLowercase, List.takeWhile_map, digit]
  have zero : (toAsciiLowercase text).head? = some '0' ↔ text.head? = some '0' := by
    cases text with
    | nil => rfl
    | cons char text =>
      have same := toLower_same (fun char => decide (char = '0')) (by decide) char
      simpa [toAsciiLowercase] using same
  unfold readNumber
  rw [digits]
  simp only [List.length_map, List.isEmpty_map, List.foldl_map, digitValue_toLower,
    beq_iff_eq, Bool.and_eq_true, zero]
  -- The same conditions decide, and what is left is the same but for its case.
  split
  · rfl
  split
  · rfl
  split
  · rfl
  split
  · rw [toAsciiLowercase, ← List.map_drop]
    rfl
  · rfl

/-- A separator that is no letter is found in lower case where it was. -/
theorem readSeparator_ignoresCase {separator : Char}
    (unlettered : ∀ char : Char, char.toLower = separator ↔ char = separator) (index : Nat)
    {inner : Str → Option Str} (ignores : IgnoresCase inner) :
    IgnoresCase (readSeparator separator index inner) := by
  intro text
  unfold readSeparator
  -- No separator is asked for in front of the first item.
  split
  · exact ignores text
  cases text with
  | nil => rfl
  | cons char text =>
    rw [toAsciiLowercase, List.map_cons]
    dsimp only
    -- A character is lowered to the separator only if it is the separator.
    by_cases same : char = separator
    · rw [if_pos same, if_pos ((unlettered char).mpr same)]
      exact ignores text
    · rw [if_neg same, if_neg fun lowered => same ((unlettered char).mp lowered)]
      rfl

/-- A dot is the lower case of nothing else. -/
theorem toLower_dot (char : Char) : char.toLower = '.' ↔ char = '.' := by
  have same := toLower_same (fun char => decide (char = '.')) (by decide) char
  simpa using same

/-- A colon is the lower case of nothing else. -/
theorem toLower_colon (char : Char) : char.toLower = ':' ↔ char = ':' := by
  have same := toLower_same (fun char => decide (char = ':')) (by decide) char
  simpa using same

/-- Readers one after the other ignore the case when each of them does. -/
theorem IgnoresCase.fold {reader : Nat → Str → Option Str}
    (each : ∀ index, IgnoresCase (reader index)) (indices : List Nat) :
    IgnoresCase fun text => indices.foldlM (fun text index => reader index text) text := by
  induction indices with
  | nil => exact fun text => rfl
  | cons index indices ih =>
    intro text
    simp only [List.foldlM_cons, each index text]
    -- A reader that fails ends the sequence in both.
    cases reader index text with
    | none => rfl
    | some rest => exact ih rest

/-- Dotted addresses are read in lower case as they are. -/
theorem readIpv4Addr_ignoresCase : IgnoresCase readIpv4Addr :=
  IgnoresCase.fold (fun index => readSeparator_ignoresCase toLower_dot index
    (readNumber_ignoresCase 10 3 255 false)) [0, 1, 2, 3]

/-- The groups of an address are read in lower case as they are. -/
theorem readGroups_toAsciiLowercase (limit left : Nat) (text : Str) :
    readGroups limit left (toAsciiLowercase text) =
      ((readGroups limit left text).1, (readGroups limit left text).2.1,
        toAsciiLowercase (readGroups limit left text).2.2) := by
  -- On the groups that are left to read.
  induction left generalizing text with
  | zero => rfl
  | succ left ih =>
    have address := readSeparator_ignoresCase toLower_colon (limit - (left + 1))
      readIpv4Addr_ignoresCase text
    have number := readSeparator_ignoresCase toLower_colon (limit - (left + 1))
      (readNumber_ignoresCase 16 4 65535 true) text
    unfold readGroups
    dsimp only
    rw [address, number]
    -- An address of four bytes takes two groups, so it is tried only with room for two.
    by_cases several : 0 < left
    · rw [if_pos several, if_pos several]
      cases readSeparator ':' (limit - (left + 1)) readIpv4Addr text with
      | some rest => rfl
      | none =>
        cases readSeparator ':' (limit - (left + 1)) (readNumber 16 4 65535 true) text with
        | none => rfl
        | some rest => exact ih rest
    · -- With room for one only a number is tried.
      rw [if_neg several, if_neg several]
      cases readSeparator ':' (limit - (left + 1)) (readNumber 16 4 65535 true) text with
      | none => rfl
      | some rest => exact ih rest

/-- Without two colons in front nothing is left out. -/
theorem gap_missing (groups : Str → Bool) (text : Str) :
    (¬ ∃ behind, text = ':' :: ':' :: behind) →
      (match text with
        | ':' :: ':' :: rest => groups rest
        | _ => false) = false := by
  intro missing
  split
  · exact absurd ⟨_, rfl⟩ missing
  · rfl

/-- An address is one in lower case. -/
theorem isIpv6Addr_toAsciiLowercase (text : Str) :
    isIpv6Addr (toAsciiLowercase text) = isIpv6Addr text := by
  have empty : ∀ text : Str, (toAsciiLowercase text).isEmpty = text.isEmpty :=
    fun text => List.isEmpty_map
  unfold isIpv6Addr
  rw [readGroups_toAsciiLowercase]
  obtain ⟨headSize, headIpv4, rest⟩ := readGroups 8 8 text
  dsimp only
  rw [empty]
  split
  · rfl
  split
  · rfl
  -- Groups may be left out between two colons, which stay where they are.
  by_cases gap : ∃ behind, rest = ':' :: ':' :: behind
  · obtain ⟨behind, rfl⟩ := gap
    have lowered : toAsciiLowercase (':' :: ':' :: behind) =
        ':' :: ':' :: toAsciiLowercase behind := rfl
    have groups := readGroups_toAsciiLowercase (7 - headSize) (7 - headSize) behind
    rw [lowered]
    change (readGroups _ _ (toAsciiLowercase behind)).2.2.isEmpty = _
    rw [groups, empty]
    rfl
  · have lowered : ¬ ∃ behind, toAsciiLowercase rest = ':' :: ':' :: behind := by
      intro found
      obtain ⟨behind, same⟩ := found
      rcases rest with _ | ⟨first, _ | ⟨second, others⟩⟩
      · cases same
      · rw [toAsciiLowercase] at same
        cases (List.cons.inj same).2
      · simp only [toAsciiLowercase, List.map_cons, List.cons.injEq, toLower_colon] at same
        obtain ⟨rfl, rfl, _⟩ := same
        exact gap ⟨others, rfl⟩
    exact (gap_missing _ _ lowered).trans (gap_missing _ _ gap).symm

/-- Encoded bytes stay so in lower case when those that are allowed do. -/
theorem IsEncoded.lowered {allowed : UInt8 → Bool}
    (kept : ∀ byte, allowed byte = true → allowed (lowerByte byte) = true) {bytes : Bytes}
    (encoded : IsEncoded allowed bytes) : IsEncoded allowed (bytes.map lowerByte) := by
  have digit : ∀ byte, isAsciiHexdigit byte = true → isAsciiHexdigit (lowerByte byte) = true :=
    forall_byte (by decide +kernel)
  induction encoded with
  | empty => exact .empty
  | plain own _ ih => exact .plain (kept _ own) ih
  | percent digits _ ih => exact .percent ⟨digit _ digits.1, digit _ digits.2⟩ ih

/-- A host is one in lower case. -/
theorem IsUriHost.lowered {host : Str} (isHost : IsUriHost host) :
    IsUriHost (toAsciiLowercase host) := by
  -- A name of bytes and escapes, or an address between brackets.
  rcases isHost with name | literal
  · left
    rw [IsRegName, encode_toAsciiLowercase]
    exact IsEncoded.lowered (forall_byte (by decide +kernel)) name
  · right
    obtain ⟨inner, rfl, address⟩ := literal
    have whole : toAsciiLowercase ('[' :: (inner ++ [']'])) =
        '[' :: (toAsciiLowercase inner ++ [']']) := by
      rw [← List.singleton_append, toAsciiLowercase_append, toAsciiLowercase_append]
      rfl
    refine ⟨toAsciiLowercase inner, whole, ?_⟩
    rcases address with address | future
    · -- The digits of an address may be of either case.
      exact .inl ((isIpv6Addr_toAsciiLowercase inner).trans address)
    · right
      -- Each kind of byte holds its lower case as well.
      have letter : ∀ byte, isOneOf "vV" byte = true → isOneOf "vV" (lowerByte byte) = true :=
        forall_byte (by decide +kernel)
      have digit : ∀ byte, isAsciiHexdigit byte = true → isAsciiHexdigit (lowerByte byte) = true :=
        forall_byte (by decide +kernel)
      have other : ∀ byte, isIpvfutureChar byte = true → isIpvfutureChar (lowerByte byte) = true :=
        forall_byte (by decide +kernel)
      obtain ⟨version, digits, address, isVersion, hex, chars, same⟩ := future
      rw [encode_toAsciiLowercase, same, List.map_cons, List.map_append, List.map_cons]
      refine ⟨lowerByte version, digits.map lowerByte, address.map lowerByte, letter _ isVersion,
        ⟨?_, ?_⟩, ⟨?_, ?_⟩, rfl⟩
      · simpa using hex.1
      · exact List.forall_mem_map.mpr fun byte inside => digit byte (hex.2 byte inside)
      · simpa using chars.1
      · exact List.forall_mem_map.mpr fun byte inside => other byte (chars.2 byte inside)

/-- What may stand behind a host: nothing, or a colon and a port. -/
def IsPortTail (tail : Str) : Prop := tail = [] ∨ ∃ port, ':' ∉ port ∧ tail = ':' :: port

/-- A host with what stands behind it is a host in lower case with the same behind it. -/
theorem namedHost_lowered {named : Str} (isNamed : IsNamedHost named) :
    ∃ host tail, IsUriHost host ∧ IsPortTail tail ∧ named = host ++ tail ∧
      IsNamedHost (toAsciiLowercase host ++ tail) := by
  have port : ∀ port, IsSignedPort port → ':' ∉ port := fun _ isPort =>
    Uri.signedPort_not_mem isPort (by decide) (by decide)
  rcases isNamed with byName | byAddress
  · obtain ⟨name, isName, whole⟩ := byName
    have lowered : IsRegName (Utf8.encode (toAsciiLowercase name)) := by
      rw [IsRegName, encode_toAsciiLowercase]
      exact IsEncoded.lowered (forall_byte (by decide +kernel)) isName
    rcases whole with rfl | rfl | ⟨digits, isPort, rfl⟩
    · exact ⟨_, [], .inl isName, .inl rfl, (List.append_nil _).symm,
        .inl ⟨_, lowered, .inl (List.append_nil _)⟩⟩
    · exact ⟨name, [':'], .inl isName, .inr ⟨[], List.not_mem_nil, rfl⟩, rfl,
        .inl ⟨_, lowered, .inr (.inl rfl)⟩⟩
    · exact ⟨name, ':' :: digits, .inl isName, .inr ⟨digits, port digits isPort, rfl⟩, rfl,
        .inl ⟨_, lowered, .inr (.inr ⟨digits, isPort, rfl⟩)⟩⟩
  · obtain ⟨address, isAddress, whole⟩ := byAddress
    have lowered : IsIpLiteral (toAsciiLowercase address) := by
      rcases (show IsUriHost address from .inr isAddress).lowered with name | literal
      · -- In lower case the bracket in front is still there.
        obtain ⟨inner, rfl, _⟩ := isAddress
        have noBracket : '[' ∉ toAsciiLowercase ('[' :: (inner ++ [']'])) :=
          IsEncoded.not_mem name (by decide) (by decide)
        exact absurd List.mem_cons_self noBracket
      · exact literal
    rcases whole with rfl | ⟨digits, isPort, rfl⟩
    · exact ⟨_, [], .inr isAddress, .inl rfl, (List.append_nil _).symm,
        .inr ⟨_, lowered, .inl (List.append_nil _)⟩⟩
    · exact ⟨address, ':' :: digits, .inr isAddress, .inr ⟨digits, port digits isPort, rfl⟩, rfl,
        .inr ⟨_, lowered, .inr ⟨digits, isPort, rfl⟩⟩⟩

/-- No bracket closes inside of an address between brackets. -/
theorem bracket_not_mem {inner : Str}
    (address : isIpv6Addr inner = true ∨ IsIpvFuture (Utf8.encode inner)) : ']' ∉ inner :=
  not_mem_address address (by decide) (by decide) (by decide)

namespace Uri

/-- The host is lowered, and what stands behind it stays. -/
theorem normalizeHostPort_append {host tail : Str} (isHost : IsUriHost host)
    (isTail : IsPortTail tail) :
    normalizeHostPort (host ++ tail) = toAsciiLowercase host ++ tail := by
  unfold normalizeHostPort
  -- A name has no bracket in front, an address has.
  rcases isHost with name | literal
  · have unbracketed : (host ++ tail).head? ≠ some '[' := by
      intro bracket
      have noBracket : '[' ∉ host := IsEncoded.not_mem name (by decide) (by decide)
      cases host with
      | nil =>
        rcases isTail with rfl | ⟨port, _, rfl⟩
        · cases bracket
        · cases bracket
      | cons first host =>
        rw [List.cons_append, List.head?_cons, Option.some.injEq] at bracket
        exact noBracket (bracket ▸ List.mem_cons_self)
    -- A name has no colon, so what follows it starts at the last one.
    have colonless : ':' ∉ host := IsEncoded.not_mem name (by decide) (by decide)
    rw [if_neg unbracketed]
    dsimp only
    rcases isTail with rfl | ⟨port, plain, rfl⟩
    · rw [List.append_nil, List.append_nil, rsplitOnce_none colonless]
    · rw [rsplitOnce_append plain]
  · obtain ⟨inner, rfl, address⟩ := literal
    -- The bracket of the address is the first to close.
    have split : splitOnce ']' (inner ++ ']' :: tail) = some (inner, tail) :=
      splitOnce_append (bracket_not_mem address) tail
    have whole : '[' :: (inner ++ [']']) ++ tail = '[' :: (inner ++ ']' :: tail) := by simp
    rw [whole, List.head?_cons, if_pos rfl, List.drop_one, List.tail_cons, split]

/-- Only the host behind the user is normalized. -/
theorem normalizeAuthority_append {user hostPort : Str} (isUser : IsUser user)
    (userless : '@' ∉ hostPort) :
    normalizeAuthority (user ++ hostPort) = user ++ normalizeHostPort hostPort := by
  unfold normalizeAuthority
  rcases isUser with rfl | ⟨info, _, rfl⟩
  · rw [List.nil_append, rsplitOnce_none userless, List.nil_append]
  · rw [List.append_assoc, List.singleton_append, rsplitOnce_append userless, List.append_assoc,
      List.singleton_append]

/-- A normalized authority is one, and it stays as it is. -/
theorem normalizeAuthority_isUriAuthority {authority : Str}
    (isAuthority : IsUriAuthority authority) :
    IsUriAuthority (normalizeAuthority authority) ∧
      normalizeAuthority (normalizeAuthority authority) = normalizeAuthority authority ∧
      ((∀ char ∈ authority, inAuthority char = true) →
        ∀ char ∈ normalizeAuthority authority, inAuthority char = true) := by
  obtain ⟨user, named, isUser, isNamed, rfl⟩ := isAuthority
  obtain ⟨host, tail, isHost, isTail, rfl, lowered⟩ := namedHost_lowered isNamed
  rw [normalizeAuthority_append isUser (namedHost_userless isNamed),
    normalizeHostPort_append isHost isTail]
  refine ⟨⟨user, _, isUser, lowered, rfl⟩, ?_, fun chars => ?_⟩
  · rw [normalizeAuthority_append isUser (namedHost_userless lowered),
      normalizeHostPort_append isHost.lowered isTail, toAsciiLowercase_idempotent]
  · -- Lower case takes no letter out of an authority.
    have each : ∀ char : Char, inAuthority char.toLower = inAuthority char :=
      toLower_same inAuthority (by decide)
    simp only [List.mem_append, or_imp, forall_and, toAsciiLowercase, List.forall_mem_map, each]
      at chars ⊢
    exact chars

end Uri

end Http11

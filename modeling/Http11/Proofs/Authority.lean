import Http11.Authority
import Http11.Proofs.Decoder.Lines
import Http11.Proofs.Encoder.Forms
import Http11.Proofs.Encoder.Lines

/-! Hosts and ports are read by their grammar, but a tunnel may have two ports. -/

namespace Http11

/-- Some characters of a kind are read off the front of a text. -/
def TakesOff (good : Char → Prop) (text rest : Str) : Prop :=
  ∃ front, text = front ++ rest ∧ ∀ char ∈ front, good char

/-- Nothing is read. -/
theorem TakesOff.refl {good : Char → Prop} {text : Str} : TakesOff good text text :=
  ⟨[], rfl, by simp⟩

/-- One part is read after the other. -/
theorem TakesOff.trans {good : Char → Prop} {text middle rest : Str}
    (first : TakesOff good text middle) (second : TakesOff good middle rest) :
    TakesOff good text rest := by
  obtain ⟨front, rfl, inFront⟩ := first
  obtain ⟨back, rfl, inBack⟩ := second
  refine ⟨front ++ back, by simp, fun char inside => ?_⟩
  exact (List.mem_append.mp inside).elim (inFront char) (inBack char)

/-- What is read to the end of a text is the text. -/
theorem TakesOff.all {good : Char → Prop} {text : Str} (read : TakesOff good text []) :
    ∀ char ∈ text, good char := by
  obtain ⟨front, rfl, inFront⟩ := read
  simpa using inFront

/-- The characters of an address: digits of a base, and separators. -/
def isAddressChar (radix : Nat) (separators : List Char) (char : Char) : Prop :=
  (∃ digit < radix, Numerals.digitValue char = some digit) ∨ char ∈ separators

instance (radix : Nat) (separators : List Char) (char : Char) :
    Decidable (isAddressChar radix separators char) :=
  inferInstanceAs (Decidable (_ ∨ _))

/-- A number is read off as its digits. -/
theorem readNumber_some {radix maxDigits maxValue : Nat} {allowZeroPrefix : Bool} {text rest : Str}
    (read : readNumber radix maxDigits maxValue allowZeroPrefix text = some rest)
    (separators : List Char) : TakesOff (isAddressChar radix separators) text rest := by
  simp only [readNumber] at read
  -- Without digits, with too many of them, with a zero in front or too large, nothing is read.
  split at read
  · cases read
  split at read
  · cases read
  split at read
  · cases read
  split at read
  · cases read
    refine ⟨text.takeWhile fun char => (Numerals.digitValue char).any (· < radix), ?_, ?_⟩
    · exact (List.prefix_iff_eq_append.mp (List.takeWhile_prefix _)).symm
    · intro char inside
      have digit := List.mem_takeWhile_imp inside
      cases found : Numerals.digitValue char with
      | none => simp [found] at digit
      | some value => exact .inl ⟨value, by simpa [found] using digit, found⟩
  · cases read

/-- A separator may be read off before a part. -/
theorem readSeparator_some {separator : Char} {index : Nat} {inner : Str → Option Str}
    {text rest : Str} {good : Char → Prop} (separates : good separator)
    (each : ∀ text rest, inner text = some rest → TakesOff good text rest)
    (read : readSeparator separator index inner text = some rest) : TakesOff good text rest := by
  unfold readSeparator at read
  -- The first part has no separator, and every other one needs its own.
  split at read
  · exact each _ _ read
  · split at read
    · rename_i char others
      split at read
      · rename_i same
        subst same
        exact .trans ⟨[char], rfl, by simpa using separates⟩ (each _ _ read)
      · cases read
    · cases read

/-- A dotted address is read off as digits and dots. -/
theorem readIpv4Addr_some {text rest : Str} (read : readIpv4Addr text = some rest) :
    TakesOff (isAddressChar 10 ['.']) text rest := by
  have parts : ∀ (indices : List Nat) (text : Str), indices.foldlM (fun text index =>
      readSeparator '.' index (readNumber 10 3 255 false) text) text = some rest →
      TakesOff (isAddressChar 10 ['.']) text rest := by
    intro indices
    -- The parts are read one behind the other.
    induction indices with
    | nil =>
      intro text read
      cases read
      exact .refl
    | cons index indices ih =>
      intro text read
      rw [List.foldlM_cons, Option.bind_eq_bind, Option.bind_eq_some_iff] at read
      obtain ⟨middle, first, others⟩ := read
      exact (readSeparator_some (.inr (by simp)) (fun _ _ read => readNumber_some read _)
        first).trans (ih middle others)
  exact parts _ _ read

/-- What a smaller base has for digits, a larger one has as well. -/
theorem isAddressChar_mono {small large : Nat} {few many : List Char} (le : small ≤ large)
    (subset : few ⊆ many) {char : Char} (good : isAddressChar small few char) :
    isAddressChar large many char := by
  refine good.imp ?_ fun separator => subset separator
  rintro ⟨value, below, found⟩
  exact ⟨value, lt_of_lt_of_le below le, found⟩

/-- Groups of an address are read off as hexadecimal digits, dots and colons. -/
theorem readGroups_takesOff (limit left : Nat) (text : Str) :
    TakesOff (isAddressChar 16 ['.', ':']) text (readGroups limit left text).2.2 := by
  -- Each group may be a dotted address, a hexadecimal number or none at all.
  induction left generalizing text with
  | zero => exact .refl
  | succ left ih =>
    rw [readGroups]
    split
    · rename_i rest dotted
      split at dotted
      · refine readSeparator_some (.inr (by simp)) (fun text rest read => ?_) dotted
        obtain ⟨front, same, good⟩ := readIpv4Addr_some read
        exact ⟨front, same, fun char inside =>
          isAddressChar_mono (by decide) (by simp) (good char inside)⟩
      · cases dotted
    · split
      · rename_i rest group
        exact (readSeparator_some (.inr (by simp)) (fun _ _ read => readNumber_some read _)
          group).trans (ih rest)
      · exact .refl

/-- An address of eight groups is made of hexadecimal digits, dots and colons. -/
theorem isIpv6Addr_chars {text : Str} (address : isIpv6Addr text = true) :
    ∀ char ∈ text, isAddressChar 16 ['.', ':'] char := by
  have front := readGroups_takesOff 8 8 text
  unfold isIpv6Addr at address
  cases groups : readGroups 8 8 text with
  | mk headSize others =>
    obtain ⟨headIpv4, rest⟩ := others
    rw [groups] at front
    simp only [groups] at address
    split at address
    · rw [List.isEmpty_iff.mp address] at front
      exact front.all
    split at address
    · cases address
    split at address
    · rename_i behind
      -- Two colons stand for the groups that are left out.
      have colons : TakesOff (isAddressChar 16 ['.', ':']) (':' :: ':' :: behind) behind :=
        ⟨[':', ':'], rfl, fun char inside => .inr (by simp at inside; simp [inside])⟩
      have back := readGroups_takesOff (7 - headSize) (7 - headSize) behind
      rw [List.isEmpty_iff.mp address] at back
      exact ((front.trans colons).trans back).all
    · cases address

/-- A registered name is checked byte by byte. -/
theorem isRegNameBytes_iff (bytes : Bytes) : isRegNameBytes bytes = true ↔ IsRegName bytes := by
  constructor
  · intro checked
    -- Checking follows the bytes: an allowed one, a percent sign with its digits, or the end.
    fun_induction isRegNameBytes bytes with
    | case1 => exact .empty
    | case2 byte rest allowed ih => exact .plain allowed (ih checked)
    | case3 byte other percent high low rest ih =>
      simp only [Bool.and_eq_true, and_assoc] at checked
      rw [beq_iff_eq.mp percent]
      exact .percent ⟨checked.1, checked.2.1⟩ (ih checked.2.2)
    | case4 => cases checked
    | case5 => cases checked
  · intro name
    -- A generated name passes the check at every byte.
    induction name with
    | empty => rfl
    | plain allowed _ ih =>
      unfold isRegNameBytes
      rw [if_pos (by exact allowed)]
      exact ih
    | percent digits _ ih =>
      rw [isRegNameBytes, if_neg (by decide), if_pos (by decide)]
      simp only [Bool.and_eq_true]
      exact ⟨digits, ih⟩

/-- What is allowed, percent signs and digits are all the bytes there are. -/
theorem IsEncoded.all {allowed : UInt8 → Bool} {bytes : Bytes} (encoded : IsEncoded allowed bytes) :
    bytes.all (fun byte => allowed byte || isAsciiHexdigit byte || byte == 0x25) = true := by
  induction encoded with
  | empty => rfl
  | plain kept _ ih => simp [ih, kept]
  | percent digits _ ih => simp [ih, digits]

/-- Bytes that are allowed need no percent signs. -/
theorem isEncoded_of_all {allowed : UInt8 → Bool} {bytes : Bytes}
    (plain : ∀ byte ∈ bytes, allowed byte = true) : IsEncoded allowed bytes := by
  induction bytes with
  | nil => exact .empty
  | cons byte bytes ih =>
    rw [List.forall_mem_cons] at plain
    exact .plain plain.1 (ih plain.2)

/-- A dotted address is a registered name as well. -/
theorem isIpv4Addr_regName {host : Str} (address : isIpv4Addr host = true) :
    IsRegName (Utf8.encode host) := by
  simp only [isIpv4Addr, Bool.and_eq_true, beq_iff_eq] at address
  have chars := (readIpv4Addr_some address.2).all
  refine isEncoded_of_all fun byte inside => ?_
  obtain ⟨char, found, inChar⟩ := Utf8.mem_encode.mp inside
  have digit : ∀ byte, isAsciiDigit byte = true → isUnreservedByte byte = true :=
    forall_byte (by decide +kernel)
  -- The characters are digits and dots, and all of them may stand in a name.
  rcases chars char found with decimal | dot
  · have isDigit := (digitValue_decimal char).mp decimal
    have all : (Utf8.encode [char]).all isAsciiDigit = true := by
      rw [all_isDigit]
      simp [isDigit]
    have member : byte ∈ Utf8.encode [char] := by simpa [Utf8.encode] using inChar
    rw [isNameByte, digit byte (List.all_eq_true.mp all byte member), Bool.true_or]
  · rw [List.mem_singleton.mp dot] at inChar
    have same : byte = 0x2E := by simpa [String.utf8EncodeChar] using inChar
    rw [same]
    decide

/-- A number of an address is no more than a byte holds. -/
example : isIpv4Addr "192.0.2.255".toList = true ∧ isIpv4Addr "192.0.2.256".toList = false := by
  decide +kernel

/-- An address in a future format is checked part by part. -/
theorem isValidIpvfuture_iff (text : Str) :
    isValidIpvfuture text = true ↔ IsIpvFuture (Utf8.encode text) := by
  unfold isValidIpvfuture IsIpvFuture
  cases Utf8.encode text with
  | nil => simp
  | cons version rest =>
    simp only [Bool.and_eq_true, decide_eq_true_eq, Bool.not_eq_true', List.isEmpty_eq_false_iff]
    constructor
    · rintro ⟨⟨⟨_, isVersion⟩, present⟩, behind⟩
      -- The hexadecimal digits end at the dot, and something follows it.
      cases dropped : rest.dropWhile isAsciiHexdigit with
      | nil => simp [dropped] at behind
      | cons dot address =>
        simp only [dropped, Bool.and_eq_true, beq_iff_eq, Bool.not_eq_true',
          List.isEmpty_eq_false_iff, List.all_eq_true] at behind
        obtain ⟨⟨rfl, there⟩, plain⟩ := behind
        refine ⟨version, rest.takeWhile isAsciiHexdigit, address, isVersion,
          ⟨present, fun byte inside => List.mem_takeWhile_imp inside⟩, ⟨there, plain⟩, ?_⟩
        rw [← dropped, List.takeWhile_append_dropWhile]
    · rintro ⟨_, digits, address, isVersion, ⟨present, hex⟩, ⟨there, plain⟩, same⟩
      cases same
      -- The dot is no digit, so the digits that are taken are those in front of it.
      have taken : (digits ++ 0x2E :: address).takeWhile isAsciiHexdigit = digits := by
        rw [List.takeWhile_append_of_pos hex, List.takeWhile_cons, if_neg (by decide),
          List.append_nil]
      have dropped : (digits ++ 0x2E :: address).dropWhile isAsciiHexdigit = 0x2E :: address := by
        rw [List.dropWhile_append_of_pos hex, List.dropWhile_cons, if_neg (by decide)]
      rw [taken, dropped]
      have long := List.length_pos_of_ne_nil present
      have behind := List.length_pos_of_ne_nil there
      refine ⟨⟨⟨?_, isVersion⟩, present⟩, ?_⟩
      · simp only [List.length_append, List.length_cons]
        omega
      · simpa [there, List.all_eq_true] using plain

/-- An address between brackets is in one of the two formats. -/
theorem isValidIpv6OrFuture_iff (inner : Str) :
    isValidIpv6OrFuture inner = true ↔
      isIpv6Addr inner = true ∨ IsIpvFuture (Utf8.encode inner) := by
  have version : ∀ byte, isOneOf "vV" byte = true → byte = 0x76 ∨ byte = 0x56 :=
    forall_byte (by decide +kernel)
  unfold isValidIpv6OrFuture
  split
  · rw [isValidIpvfuture_iff]
    refine (or_iff_right fun address => ?_).symm
    -- The letter of the version is no digit of an address.
    exact absurd (isIpv6Addr_chars address 'v' List.mem_cons_self) (by decide)
  · rw [isValidIpvfuture_iff]
    refine (or_iff_right fun address => ?_).symm
    exact absurd (isIpv6Addr_chars address 'V' List.mem_cons_self) (by decide)
  · rename_i small large
    refine (or_iff_left ?_).symm
    rintro ⟨first, digits, address, isVersion, _, _, same⟩
    cases inner with
    | nil => cases same
    | cons char inner =>
      rcases version first isVersion with rfl | rfl
      · exact small inner (by rw [Utf8.head_of_encode same (by decide)]; rfl)
      · exact large inner (by rw [Utf8.head_of_encode same (by decide)]; rfl)

/-- A number of sixteen bits is read from digits that denote one. -/
theorem isPort_iff (port : Str) :
    IsPort port ↔ IsDigits port ∧ (parseU16 port).isSome = true := by
  refine and_congr_right fun digits => ?_
  rw [Option.isSome_iff_exists]
  constructor
  · intro small
    exact ⟨_, (Numerals.read_iff (by decide)).mpr
      ⟨port, .inl rfl, digits.1, (areDigits_iff port).mpr digits.2, rfl, small⟩⟩
  · rintro ⟨number, read⟩
    obtain ⟨others, same | same, _, _, rfl, small⟩ := (Numerals.read_iff (by decide)).mp read
    · rw [same]
      exact small
    · -- A plus sign is no digit.
      have sign := digits.2 '+' (by simp [same])
      exact absurd sign (by decide)

/-- A port is read when it is one. -/
theorem parsePort_iff (port : Str) : (∃ number, parsePort port = .ok number) ↔ IsPort port := by
  rw [isPort_iff, parsePort]
  -- The digits are tested first, and then their number must fit.
  by_cases digits : IsDigits port
  · have present : ¬ (port.isEmpty || !port.all Char.isDigit) = true := by
      simpa [IsDigits] using digits
    rw [if_neg present]
    cases parseU16 port <;> simp [digits]
  · have absent : (port.isEmpty || !port.all Char.isDigit) = true := by
      by_contra present
      exact digits (by simpa [IsDigits] using present)
    rw [if_pos absent]
    simp [digits]

/-- A text without white space is not trimmed. -/
theorem trimOws_of_forall {text : Str} (plain : ∀ char ∈ text, isOws char = false) :
    trimOws text = text := by
  rw [trimOws, dropWhile_of_forall plain, rdropWhile_of_forall plain]

/-- A text splits at a separator that has none behind it. -/
theorem rsplitOnce_append {separator : Char} {back : Str} (plain : separator ∉ back) (front : Str) :
    rsplitOnce separator (front ++ separator :: back) = some (front, back) := by
  have reversed : (front ++ separator :: back).reverse =
      back.reverse ++ separator :: front.reverse := by simp
  rw [rsplitOnce, reversed, splitOnce_append (by simpa using plain)]
  simp

/-- A text without the separator does not split. -/
theorem rsplitOnce_none {separator : Char} {text : Str} (plain : separator ∉ text) :
    rsplitOnce separator text = none := by
  rw [rsplitOnce, splitOnce_none (by simpa using plain)]
  rfl

/-- No separator stands in a port. -/
theorem IsPort.not_mem {port : Str} (isPort : IsPort port) {char : Char}
    (separator : char.isDigit = false) : char ∉ port := by
  intro inside
  rw [isPort.1.2 char inside] at separator
  cases separator

/-- Characters that may not be encoded do not stand in an encoded text. -/
theorem IsEncoded.not_mem {allowed : UInt8 → Bool} {text : Str}
    (encoded : IsEncoded allowed (Utf8.encode text)) {char : Char} (ascii : char.toNat < 0x80)
    (refused : (allowed (UInt8.ofNat char.toNat) || isAsciiHexdigit (UInt8.ofNat char.toNat) ||
      UInt8.ofNat char.toNat == 0x25) = false) : char ∉ text :=
  not_mem_of_encode_all encoded.all ascii refused

/-- An address in a future format holds no other bytes than those behind its dot. -/
theorem IsIpvFuture.all {bytes : Bytes} (address : IsIpvFuture bytes) :
    bytes.all isIpvfutureChar = true := by
  obtain ⟨version, digits, future, isVersion, hex, plain, rfl⟩ := address
  have letter : ∀ byte, isOneOf "vV" byte = true → isIpvfutureChar byte = true :=
    forall_byte (by decide +kernel)
  have digit : ∀ byte, isAsciiHexdigit byte = true → isIpvfutureChar byte = true :=
    forall_byte (by decide +kernel)
  rw [List.all_eq_true]
  intro byte inside
  simp only [List.mem_cons, List.mem_append] at inside
  -- The letter, the digits, the dot and what follows it.
  rcases inside with rfl | inside | rfl | inside
  · exact letter _ isVersion
  · exact digit byte (hex.2 byte inside)
  · decide
  · exact plain.2 byte inside

/-- Characters that no address may hold do not stand in one. -/
theorem not_mem_address {inner : Str}
    (address : isIpv6Addr inner = true ∨ IsIpvFuture (Utf8.encode inner)) {char : Char}
    (ascii : char.toNat < 0x80) (refused : ¬ isAddressChar 16 ['.', ':'] char)
    (refusedLater : isIpvfutureChar (UInt8.ofNat char.toNat) = false) : char ∉ inner := by
  rcases address with address | address
  · exact fun inside => refused (isIpv6Addr_chars address _ inside)
  · exact not_mem_of_encode_all address.all ascii refusedLater

/-- A host that may have a port behind it. -/
def IsHostPort (input : Str) : Prop :=
  ∃ host, host ≠ [] ∧ IsUriHost host ∧
    (input = host ∨ ∃ port, IsPort port ∧ input = host ++ ':' :: port)

/-- A bracket starts no registered name. -/
theorem IsUriHost.literal {host : Str} (isHost : IsUriHost ('[' :: host)) :
    IsIpLiteral ('[' :: host) := by
  refine isHost.resolve_left fun name => ?_
  have unnamed : '[' ∉ '[' :: host := name.not_mem (by decide) (by decide)
  exact unnamed List.mem_cons_self

/-- What a host is read from: its name or address, and its port behind a colon. -/
structure Host.IsRead (host : Host) (input : Str) : Prop where
  /-- There is a name or an address. -/
  filled : host.host ≠ []
  /-- The name or the address is one. -/
  valid : IsUriHost host.host
  /-- Nothing else is there but the digits of the port. -/
  whole : (input = host.host ∧ host.port = none) ∨ ∃ digits number,
    input = host.host ++ ':' :: digits ∧ parsePort digits = .ok number ∧ host.port = some number

/-- An address in brackets is read with the port behind it. -/
theorem parseIpv6Host_iff (rest : Str) (parsed : Host) :
    parseIpv6Host ('[' :: rest) = .ok parsed ↔ parsed.IsRead ('[' :: rest) := by
  simp only [parseIpv6Host, List.drop_one, List.tail_cons]
  -- The characters up to the bracket are the address with its brackets.
  have front : ∀ inner behind : Str, ('[' :: (inner ++ ']' :: behind)).take (inner.length + 2) =
      '[' :: (inner ++ [']']) := by
    intro inner behind
    have whole : '[' :: (inner ++ ']' :: behind) = '[' :: (inner ++ [']']) ++ behind := by simp
    rw [whole]
    exact List.take_left' (by simp)
  constructor
  · intro read
    cases split : splitOnce ']' rest with
    | none => simp [split] at read
    | some parts =>
      obtain ⟨inner, behind⟩ := parts
      obtain ⟨rfl, _⟩ := splitOnce_some split
      simp only [split, front] at read
      -- Whatever the port, the address in front of it is checked.
      have address : ∀ number : Option Nat, (if inner.isEmpty then Except.error HostError.invalidHost
          else if !isValidIpv6OrFuture inner then .error HostError.invalidHost
          else .ok (⟨'[' :: (inner ++ [']']), number⟩ : Host)) = .ok parsed →
          IsIpLiteral ('[' :: (inner ++ [']'])) ∧ parsed = ⟨'[' :: (inner ++ [']']), number⟩ := by
        intro number read
        split at read
        · cases read
        split at read
        · cases read
        rename_i valid
        cases read
        exact ⟨⟨inner, rfl, (isValidIpv6OrFuture_iff inner).mp (by simpa using valid)⟩, rfl⟩
      split at read
      · obtain ⟨literal, rfl⟩ := address none read
        exact ⟨List.cons_ne_nil _ _, .inr literal, .inl ⟨by simp, rfl⟩⟩
      · rename_i port
        rw [Checked.bind_ok] at read
        obtain ⟨number, ported, read⟩ := read
        rw [Checked.map_ok] at ported
        obtain ⟨value, isPort, rfl⟩ := ported
        obtain ⟨literal, rfl⟩ := address (some value) read
        exact ⟨List.cons_ne_nil _ _, .inr literal, .inr ⟨port, value, by simp, isPort, rfl⟩⟩
      · cases read
  · intro isRead
    obtain ⟨present, isHost, whole⟩ := isRead
    obtain ⟨host, number⟩ := parsed
    dsimp only at present isHost whole
    have literal : IsIpLiteral host := by
      cases host with
      | nil => exact absurd rfl present
      | cons first host =>
        have same : first = '[' := by
          rcases whole with ⟨same, _⟩ | ⟨_, _, same, _⟩ <;> cases same <;> rfl
        subst same
        exact isHost.literal
    obtain ⟨inner, rfl, address⟩ := literal
    have inside : inner ≠ [] := by
      rintro rfl
      rcases address with address | ⟨_, _, _, _, _, _, same⟩
      · exact absurd address (by decide)
      · cases same
    have split : ∀ behind, splitOnce ']' (inner ++ ']' :: behind) = some (inner, behind) :=
      fun behind => splitOnce_append (not_mem_address address (by decide) (by decide) (by decide)) behind
    have valid := (isValidIpv6OrFuture_iff inner).mpr address
    rcases whole with ⟨same, rfl⟩ | ⟨port, value, same, read, rfl⟩
    · have behind : rest = inner ++ ']' :: [] := by simpa using same
      rw [behind, split]
      dsimp only
      rw [front]
      simp [valid, inside, Bind.bind, Except.bind]
    · have behind : rest = inner ++ ']' :: ':' :: port := by simpa using same
      rw [behind, split]
      dsimp only
      rw [front]
      simp [valid, inside, read, Except.map, Bind.bind, Except.bind]

/-- A name or a dotted address is read with the port behind it. -/
theorem splitHostPort_iff {input host : Str} {port : Option Nat} (colonless : ':' ∉ host) :
    splitHostPort input = .ok (host, port) ↔ (input = host ∧ port = none) ∨
      ∃ digits number, input = host ++ ':' :: digits ∧ parsePort digits = .ok number ∧
        port = some number := by
  unfold splitHostPort
  constructor
  · intro read
    -- Without a colon the whole input is the host.
    cases split : rsplitOnce ':' input with
    | none =>
      simp only [split] at read
      cases read
      exact .inl ⟨rfl, rfl⟩
    | some parts =>
      obtain ⟨name, digits⟩ := parts
      simp only [split] at read
      -- The host must be there and have no colon of its own.
      split at read
      · cases read
      split at read
      · cases read
      rw [Checked.map_ok] at read
      obtain ⟨number, isPort, same⟩ := read
      cases same
      exact .inr ⟨digits, number, (rsplitOnce_some split).1, isPort, rfl⟩
  · rintro (⟨rfl, rfl⟩ | ⟨digits, number, rfl, read, rfl⟩)
    · rw [rsplitOnce_none colonless]
    · -- A port has no colon, so the last one is the colon in front of it.
      have isPort := (parsePort_iff digits).mp ⟨number, read⟩
      rw [rsplitOnce_append (isPort.not_mem (by decide))]
      simp [colonless, isPort.1.1, read, Except.map]

/-- A host is read with the port behind it. -/
theorem Host.parse_eq_iff {input : Str} (plain : ∀ char ∈ input, isWhitespace char = false)
    (parsed : Host) : Host.parse input = .ok parsed ↔ parsed.IsRead input := by
  have trimmed : trimOws input = input := by
    refine trimOws_of_forall fun char inside => ?_
    have visible := plain char inside
    by_contra blank
    simp only [isOws, Bool.or_eq_false_iff, beq_eq_false_iff_ne, not_and_or, not_not] at blank
    rcases blank with rfl | rfl <;> revert visible <;> decide
  have visible : ¬ input.any isWhitespace = true := by simpa using plain
  simp only [Host.parse, trimmed]
  cases input with
  | nil =>
    refine iff_of_false (fun read => by cases read) fun read => ?_
    rcases read.whole with ⟨same, _⟩ | ⟨_, _, same, _⟩
    · exact read.filled same.symm
    · simp at same
  | cons first rest =>
    rw [if_neg (by simp), if_neg visible]
    by_cases bracket : first = '['
    · subst bracket
      rw [if_pos (by simp)]
      exact parseIpv6Host_iff rest parsed
    rw [if_neg (by simpa using bracket)]
    simp only [Checked.bind_ok]
    constructor
    · rintro ⟨⟨host, port⟩, split, read⟩
      dsimp only at read
      split at read
      · cases read
      rename_i named
      simp only [Bool.or_eq_true, List.isEmpty_iff, not_or] at named
      -- A dotted address is a registered name, as anything else has to be.
      obtain ⟨isName, rfl⟩ : IsRegName (Utf8.encode host) ∧ parsed = ⟨host, port⟩ := by
        split at read
        · rename_i address
          cases read
          exact ⟨isIpv4Addr_regName address, rfl⟩
        split at read
        · cases read
        · rename_i valid
          cases read
          simp only [isValidRegName, Bool.not_eq_true', Bool.not_eq_false, Bool.and_eq_true] at valid
          exact ⟨(isRegNameBytes_iff _).mp valid.2, rfl⟩
      have colonless : ':' ∉ host := isName.not_mem (by decide) (by decide)
      exact ⟨named.1, .inl isName, (splitHostPort_iff colonless).mp split⟩
    · intro isRead
      obtain ⟨present, isHost, whole⟩ := isRead
      obtain ⟨host, port⟩ := parsed
      dsimp only at present isHost whole
      have isName : IsRegName (Utf8.encode host) := by
        refine isHost.resolve_right ?_
        rintro ⟨inner, rfl, _⟩
        rcases whole with ⟨same, _⟩ | ⟨_, _, same, _⟩ <;> cases same <;> exact bracket rfl
      have colonless : ':' ∉ host := isName.not_mem (by decide) (by decide)
      have userless : '@' ∉ host := isName.not_mem (by decide) (by decide)
      have valid : isValidRegName host = true := by
        simp [isValidRegName, present, (isRegNameBytes_iff _).mpr isName]
      refine ⟨(host, port), (splitHostPort_iff colonless).mpr whole, ?_⟩
      dsimp only
      rw [if_neg (by simp [present, userless])]
      split
      · rfl
      · rw [if_neg (by simp [valid])]

/-- A host is read wherever there is one. -/
theorem Host.parse_iff {input : Str} (plain : ∀ char ∈ input, isWhitespace char = false) :
    (∃ parsed, Host.parse input = .ok parsed) ↔ IsHostPort input := by
  constructor
  · intro ⟨parsed, read⟩
    obtain ⟨present, isHost, whole⟩ := (Host.parse_eq_iff plain parsed).mp read
    refine ⟨parsed.host, present, isHost, ?_⟩
    -- The host stands alone or with its port, on both sides.
    rcases whole with ⟨same, _⟩ | ⟨digits, number, same, ported, _⟩
    · exact .inl same
    · exact .inr ⟨digits, (parsePort_iff digits).mp ⟨number, ported⟩, same⟩
  · intro ⟨host, present, isHost, whole⟩
    rcases whole with same | ⟨digits, isPort, same⟩
    · exact ⟨⟨host, none⟩, (Host.parse_eq_iff plain _).mpr ⟨present, isHost, .inl ⟨same, rfl⟩⟩⟩
    · obtain ⟨number, found⟩ := (parsePort_iff digits).mpr isPort
      exact ⟨⟨host, some number⟩, (Host.parse_eq_iff plain _).mpr
        ⟨present, isHost, .inr ⟨digits, number, same, found, rfl⟩⟩⟩

/-- No white space stands in the target of a request. -/
theorem visible_of_target {uri : Str} (target : TargetText uri) :
    ∀ char ∈ uri, isWhitespace char = false := by
  have bytes : (Utf8.encode uri).all (fun byte => isTargetByte byte && byte ≤ 0x7E) = true := by
    rw [List.all_eq_true]
    intro byte inside
    have printed := List.all_eq_true.mp (isValidTargetBytes_all target.valid) byte inside
    simp [printed, target.ascii byte inside]
  exact forall_mem_of_encode_all (forall_byte (by decide +kernel)) (by decide +kernel) bytes

/-- A decoder reads a target as a host, which may have a port, and a port. -/
theorem validateAuthorityForm_target {uri : Str} (target : TargetText uri) :
    validateAuthorityForm uri = .ok () ↔
      ∃ host port, IsHostPort host ∧ IsPort port ∧ uri = host ++ ':' :: port := by
  have isOk : ∀ host : Str, (Host.parse host).isOk = true ↔ ∃ parsed, Host.parse host = .ok parsed := by
    intro host
    cases Host.parse host <;> simp [Except.isOk, Except.toBool]
  have visible := visible_of_target target
  rw [validateAuthorityForm_iff]
  constructor
  · -- The host in front of the last colon may have a port itself.
    rintro ⟨host, port, split, ⟨_, present, digits, number⟩, parsed⟩
    obtain ⟨rfl, _⟩ := rsplitOnce_some split
    refine ⟨host, port, ?_, (isPort_iff port).mpr ⟨⟨present, by simpa using digits⟩, number⟩, rfl⟩
    rw [isOk, Host.parse_iff fun char inside => visible char (List.mem_append_left _ inside)]
      at parsed
    exact parsed
  · rintro ⟨host, port, isHost, isPort, rfl⟩
    obtain ⟨digits, number⟩ := (isPort_iff port).mp isPort
    refine ⟨host, port, rsplitOnce_append (isPort.not_mem (by decide)) host,
      ⟨?_, digits.1, by simpa using digits.2, number⟩, ?_⟩
    · obtain ⟨name, present, _, rfl | ⟨_, _, rfl⟩⟩ := isHost
      · exact present
      · simp
    · rw [isOk, Host.parse_iff fun char inside => visible char (List.mem_append_left _ inside)]
      exact isHost

/-- A host and two ports are no host and port. -/
theorem not_isAuthorityForm_twice {uri : Str} (twice : IsTwicePorted uri) :
    ¬ IsAuthorityForm uri := by
  obtain ⟨_, host, first, second, _, _, isFirst, isSecond, rfl⟩ := twice
  rintro ⟨other, port, isHost, isPort, same⟩
  -- The last colon is the one before the second port.
  have last : ':' ∉ second := isSecond.not_mem (by decide)
  have split := rsplitOnce_append last (host ++ ':' :: first)
  rw [List.append_assoc, List.cons_append, same,
    rsplitOnce_append (isPort.not_mem (by decide))] at split
  cases split
  rcases isHost with name | ⟨inner, literal, _⟩
  · have unnamed : ':' ∉ host ++ ':' :: first := name.not_mem (by decide) (by decide)
    exact unnamed (by simp)
  · -- The first port ends in a digit, and not in a bracket.
    obtain ⟨front, char, rfl⟩ := (List.eq_nil_or_concat first).resolve_left isFirst.1.1
    have last := congrArg List.getLast? literal
    simp only [List.concat_eq_append, ← List.cons_append, ← List.append_assoc,
      List.getLast?_concat, Option.some.injEq] at last
    have digit := isFirst.1.2 char (by simp)
    rw [last] at digit
    exact absurd digit (by decide)

/-- A host that may have a port, and a port, are an authority unless there are two ports. -/
theorem isHostPort_cases {uri host port : Str} (valid : isValidRequestTarget uri = true)
    (isHost : IsHostPort host) (isPort : IsPort port) (whole : uri = host ++ ':' :: port) :
    IsAuthorityForm uri ∨ IsTwicePorted uri := by
  obtain ⟨name, present, isName, rfl | ⟨first, isFirst, rfl⟩⟩ := isHost
  · exact .inl ⟨host, port, isName, isPort, whole⟩
  · exact .inr ⟨valid, name, first, port, present, isName, isFirst, isPort, by simp [whole]⟩

/-- Nothing but a whole URI has a slash behind its colon. -/
theorem containsStr_subset {pattern text : Str} (found : containsStr pattern text = true) :
    pattern ⊆ text := by
  unfold containsStr at found
  -- The pattern stands at the front, or further back.
  induction text with
  | nil =>
    by_cases empty : pattern = []
    · simp [empty]
    · simp [splitOnceStr, empty] at found
  | cons char rest ih =>
    simp only [splitOnceStr] at found
    split at found
    · rename_i front
      exact (List.isPrefixOf_iff_prefix.mp front).subset
    · exact fun _ inside => List.mem_cons_of_mem _ (ih (by simpa using found) inside)

/-- A target is taken for an authority when it is one and nothing else. -/
theorem parseRequestTargetForm_authority {uri : Str}
    (parsed : parseRequestTargetForm uri = .ok .authority) : validateAuthorityForm uri = .ok () := by
  have absolute : validateAbsoluteForm uri ≠ .ok .authority := fun checked => by
    cases validateAbsoluteForm_absolute checked
  simp only [parseRequestTargetForm] at parsed
  -- The other forms are tried first, and each of them answers with its own form.
  split at parsed
  · cases parsed
  split at parsed
  · cases parsed
  split at parsed
  · rw [Checked.map_ok] at parsed
    obtain ⟨_, _, same⟩ := parsed
    cases same
  split at parsed
  · exact absurd parsed absolute
  split at parsed
  · rename_i accepted
    cases checked : validateAuthorityForm uri with
    | error error => simp [checked, Except.isOk, Except.toBool] at accepted
    | ok done => rfl
  split at parsed
  · exact absurd parsed absolute
  · cases parsed

/-- The words of a line that is made of three, when no space stands in the first and the last. -/
theorem splitn_words {name uri version method target last : Str}
    (words : splitn 3 ' ' (name ++ ' ' :: (uri ++ ' ' :: version)) = [method, target, last])
    (named : ' ' ∉ name) (plain : ' ' ∉ last) : method = name ∧ target = uri := by
  rw [splitn, splitOnce_append named] at words
  dsimp only at words
  rw [splitn] at words
  cases split : splitOnce ' ' (uri ++ ' ' :: version) with
  | none => exact absurd (by simp) (not_mem_of_splitOnce split)
  | some parts =>
    obtain ⟨front, back⟩ := parts
    obtain ⟨whole, spaceless⟩ := splitOnce_some split
    simp only [split, splitn, List.cons.injEq, and_true] at words
    obtain ⟨rfl, rfl, rfl⟩ := words
    refine ⟨rfl, ?_⟩
    -- There is one space only, so both sides are split at the same place.
    rcases List.append_eq_append_iff.mp whole with ⟨middle, same, behind⟩ | ⟨middle, same, behind⟩
    · cases middle with
      | nil => simpa using same
      | cons char middle =>
        cases behind
        rw [same] at spaceless
        exact absurd (by simp) spaceless
    · cases middle with
      | nil => simpa using same.symm
      | cons char middle =>
        cases behind
        exact absurd (by simp) plain

/-- A line that a decoder accepts has a target that it takes for an authority. -/
theorem connects_target {uri : Str} (connects : RequestDecoder.Connects uri) :
    isValidRequestTarget uri = true ∧ TargetText uri ∧ validateAuthorityForm uri = .ok () := by
  obtain ⟨version, decoder, plain, phase, buf, accepted⟩ := connects
  obtain ⟨text, decoded, checked⟩ :=
    (Core.decodeHeaders_startLine RequestDecoder.side decoder.toCore plain phase buf).1.mp accepted
  rw [lineText_encode] at decoded
  cases decoded
  change RequestDecoder.checkStartLine (connectLine uri version) = .ok () at checked
  unfold RequestDecoder.checkStartLine at checked
  -- The line is split in three words, and CONNECT admits one form only.
  split at checked
  · cases checked
  split at checked
  · rename_i method target last words
    simp only [Checked.bind_ok, Checked.reject_ok, Bool.not_eq_false'] at checked
    obtain ⟨_, _, _, valid, _, narrow, form, parsed, _, used, versioned⟩ := checked
    have spaceless := not_mem_of_plain ' ' (by decide) (isValidProtocolVersion_plain versioned).2
    obtain ⟨rfl, rfl⟩ := splitn_words words (by decide) spaceless
    -- Any other form is refused for this method.
    have authority : form = .authority := by
      by_contra other
      unfold validateRequestTargetForMethod at used
      rw [if_pos rfl, if_pos other] at used
      cases used
    subst authority
    obtain ⟨_, isTarget⟩ := isValidRequestTarget_text valid (by simpa using narrow)
    exact ⟨valid, isTarget, parseRequestTargetForm_authority parsed⟩
  · cases checked

/-- A request that an encoder accepts has a target that the decoder takes for an authority. -/
theorem Request.Connects.target {uri : Str} (connects : Request.Connects uri) :
    isValidRequestTarget uri = true ∧ TargetText uri ∧ validateAuthorityForm uri = .ok () := by
  obtain ⟨request, method, rfl, encoded⟩ := connects
  have checked : ∃ done, checkRequest request = .ok done := by
    rcases encoded with encoded | encoded
    · cases written : encodeRequest request with
      | error error => simp [written, Except.isOk, Except.toBool] at encoded
      | ok wire =>
        simp only [encodeRequest, Checked.bind_ok] at written
        obtain ⟨done, checked, _⟩ := written
        exact ⟨done, checked⟩
    · cases written : encodeRequestHeaders request with
      | error error => simp [written, Except.isOk, Except.toBool] at encoded
      | ok wire =>
        simp only [encodeRequestHeaders, Checked.bind_ok] at written
        obtain ⟨done, checked, _⟩ := written
        exact ⟨done, checked⟩
  obtain ⟨_, checked⟩ := checked
  simp only [checkRequest, validateRequestFields, Checked.bind_ok, Checked.reject_ok] at checked
  obtain ⟨_, ⟨_, _, _, valid, _, narrow, _, formed, _⟩, _⟩ := checked
  rw [Bool.not_eq_false'] at valid
  have ascii : ∀ byte ∈ Utf8.encode request.uri, byte ≤ 0x7E := by simpa using narrow
  have isTarget : TargetText request.uri := by
    simp only [isValidRequestTarget, Bool.and_eq_true] at valid
    exact ⟨valid.2, ascii⟩
  refine ⟨valid, isTarget, ?_⟩
  -- A tunnel needs an authority, whose host is then checked as the decoder does.
  simp only [validateRequestTargetForm, Checked.bind_ok] at formed
  obtain ⟨form, detected, used⟩ := formed
  cases form with
  | authority =>
    dsimp only at used
    rw [if_pos method] at used
    have looks : detectRequestTargetForm.looksLikeAuthorityForm request.uri = true := by
      unfold detectRequestTargetForm at detected
      split at detected
      · cases detected
      split at detected
      · cases detected
      split at detected
      · cases detected
      split at detected
      · assumption
      split at detected <;> cases detected
    exact (validateAuthorityForm_encoder looks).mpr used
  | asterisk =>
    dsimp only at used
    rw [if_neg (by rw [method]; decide)] at used
    cases used
  | origin =>
    dsimp only at used
    rw [if_pos method] at used
    cases used
  | absolute =>
    dsimp only at used
    rw [if_pos method] at used
    cases used

/-- Characters that no host may hold do not stand in one. -/
theorem IsUriHost.not_mem {host : Str} (isHost : IsUriHost host) {char : Char}
    (ascii : char.toNat < 0x80)
    (unnamed : (isNameByte (UInt8.ofNat char.toNat) || isAsciiHexdigit (UInt8.ofNat char.toNat) ||
      UInt8.ofNat char.toNat == 0x25) = false)
    (unbracketed : char ≠ '[' ∧ char ≠ ']') (refused : ¬ isAddressChar 16 ['.', ':'] char)
    (refusedLater : isIpvfutureChar (UInt8.ofNat char.toNat) = false) : char ∉ host := by
  rcases isHost with name | ⟨inner, rfl, address⟩
  · exact name.not_mem ascii unnamed
  · have inside := not_mem_address address ascii refused refusedLater
    simp [unbracketed, inside]

/-- Digits of any base are ASCII. -/
theorem ascii_of_digitValue {char : Char} {digit : Nat}
    (found : Numerals.digitValue char = some digit) : char.toNat < 0x80 := by
  have below : ∀ last : Char, char ≤ last → last.toNat < 0x80 → char.toNat < 0x80 :=
    fun last le small => lt_of_le_of_lt le small
  unfold Numerals.digitValue at found
  -- The three ranges of digits all lie below 0x80.
  split at found
  · rename_i range
    exact below '9' range.2 (by decide)
  split at found
  · rename_i range
    exact below 'z' range.2 (by decide)
  split at found
  · rename_i range
    exact below 'Z' range.2 (by decide)
  · cases found

/-- The characters of a host are ASCII. -/
theorem IsUriHost.ascii {host : Str} (isHost : IsUriHost host) :
    ∀ char ∈ host, char.toNat < 0x80 := by
  have narrow : ∀ byte, (isNameByte byte || isAsciiHexdigit byte || byte == 0x25) = true →
      byte.toNat < 0x80 := forall_byte (by decide +kernel)
  have narrowLater : ∀ byte, isIpvfutureChar byte = true → byte.toNat < 0x80 :=
    forall_byte (by decide +kernel)
  -- A host is a name, or an address in brackets.
  rcases isHost with name | ⟨inner, rfl, address⟩
  · exact fun char inside => (ascii_of_encode_all narrow name.all char inside).1
  · have each : ∀ char ∈ inner, char.toNat < 0x80 := by
      intro char inside
      -- An address of version 6 has digits and separators, a later one its own characters.
      rcases address with address | address
      · rcases isIpv6Addr_chars address char inside with ⟨_, _, digit⟩ | separator
        · exact ascii_of_digitValue digit
        · simp only [List.mem_cons, List.not_mem_nil, or_false] at separator
          rcases separator with rfl | rfl <;> decide
      · exact (ascii_of_encode_all narrowLater address.all char inside).1
    intro char inside
    simp only [List.mem_cons, List.mem_append, List.not_mem_nil, or_false] at inside
    rcases inside with rfl | inside | rfl
    · decide
    · exact each char inside
    · decide

/-- ASCII characters are ASCII bytes. -/
theorem encode_narrow {text : Str} (ascii : ∀ char ∈ text, char.toNat < 0x80) :
    ∀ byte ∈ Utf8.encode text, byte < 0x80 := by
  intro byte inside
  obtain ⟨char, found, inChar⟩ := Utf8.mem_encode.mp inside
  have small := ascii char found
  rw [Utf8.encodeChar_ascii small, List.mem_singleton] at inChar
  rw [inChar, UInt8.lt_iff_toNat_lt, UInt8.toNat_ofNat', Nat.mod_eq_of_lt (by omega)]
  exact small

/-- A target that looks like an authority, and like nothing else, is taken for one. -/
theorem parseRequestTargetForm_of_authority {uri : Str} (accepted : validateAuthorityForm uri = .ok ())
    (colon : ':' ∈ uri) (slashless : '/' ∉ uri) : parseRequestTargetForm uri = .ok .authority := by
  -- None of the earlier forms applies to a target with a colon and without a slash.
  have present : ¬ uri.isEmpty = true := by
    intro empty
    rw [List.isEmpty_iff.mp empty] at colon
    cases colon
  have named : ¬ (uri == "*".toList) = true := by
    intro same
    rw [beq_iff_eq.mp same] at colon
    exact absurd colon (by decide)
  have origin : ¬ (uri.head? == some '/') = true := by
    intro first
    exact slashless (List.mem_of_mem_head? (beq_iff_eq.mp first))
  have embedded : ¬ containsStr "://".toList uri = true := by
    intro found
    exact slashless (containsStr_subset found (by decide))
  rw [parseRequestTargetForm, if_neg present, if_neg named, if_neg origin, if_neg embedded,
    if_pos (by rw [accepted]; rfl)]

/-- A decoder accepts a tunnel to a host with two ports. -/
theorem connects_twice {uri : Str} (twice : IsTwicePorted uri) : RequestDecoder.Connects uri := by
  obtain ⟨valid, host, first, second, present, isHost, isFirst, isSecond, whole⟩ := twice
  have digit : ∀ port : Str, IsPort port → ∀ char ∈ port, char.toNat < 0x80 := by
    intro port isPort char inside
    obtain ⟨_, _, found⟩ := (digitValue_decimal char).mpr (isPort.1.2 char inside)
    exact ascii_of_digitValue found
  have ascii : ∀ char ∈ uri, char.toNat < 0x80 := by
    intro char inside
    simp only [whole, List.mem_append, List.mem_cons] at inside
    rcases inside with inside | rfl | inside | rfl | inside
    · exact isHost.ascii char inside
    · decide
    · exact digit _ isFirst char inside
    · decide
    · exact digit _ isSecond char inside
  have narrow := encode_narrow ascii
  obtain ⟨_, target⟩ := isValidRequestTarget_text valid narrow
  have slashless : '/' ∉ uri := by
    have inHost : '/' ∉ host :=
      isHost.not_mem (by decide) (by decide) (by decide) (by decide) (by decide)
    have inFirst : '/' ∉ first := isFirst.not_mem (by decide)
    have inSecond : '/' ∉ second := isSecond.not_mem (by decide)
    simp [whole, inHost, inFirst, inSecond]
  have accepted : validateAuthorityForm uri = .ok () :=
    (validateAuthorityForm_target target).mpr ⟨host ++ ':' :: first, second,
      ⟨host, present, isHost, .inr ⟨first, isFirst, rfl⟩⟩, isSecond, by simp [whole]⟩
  have formed := parseRequestTargetForm_of_authority accepted (by simp [whole]) slashless
  -- The line holds no line ends, so a decoder reads it whole.
  obtain ⟨_, spaceless, noReturn, noFeed⟩ := isValidRequestTarget_plain valid
  have version : isValidProtocolVersion http11 = true := by decide
  have ends : '\r' ∉ connectLine uri http11 ∧ '\n' ∉ connectLine uri http11 := by
    have inMethod : '\r' ∉ "CONNECT".toList ∧ '\n' ∉ "CONNECT".toList := by decide
    have inVersion : '\r' ∉ http11 ∧ '\n' ∉ http11 := by decide
    unfold connectLine
    generalize "CONNECT".toList = method at inMethod
    generalize http11 = version at inVersion
    simp [noReturn, noFeed, inMethod, inVersion]
  have plain := (splitLine_some (splitLine_encode ends.1 [])).1
  let decoder : RequestDecoder :=
    { limits := {}, context := (), buf := Utf8.encode (connectLine uri http11) ++ crlf }
  refine ⟨http11, decoder, plain, rfl, rfl, ?_⟩
  refine (Core.decodeHeaders_startLine RequestDecoder.side decoder.toCore plain
    rfl rfl).1.mpr ⟨_, lineText_encode _, ?_⟩
  change RequestDecoder.checkStartLine (connectLine uri http11) = .ok ()
  have words : splitn 3 ' ' (connectLine uri http11) = ["CONNECT".toList, uri, http11] := by
    have named : ' ' ∉ "CONNECT".toList := by decide
    unfold connectLine
    generalize "CONNECT".toList = method at named
    rw [splitn, splitOnce_append named]
    dsimp only
    rw [splitn, splitOnce_append spaceless]
    rfl
  have tunnel : validateRequestTargetForMethod "CONNECT".toList .authority = .ok () := by decide
  have method : isValidMethod "CONNECT".toList = true := by decide
  rw [RequestDecoder.checkStartLine, if_neg (by simp [ends]), words]
  simp only [Checked.bind_ok, Checked.reject_ok, method, valid, version, formed, Bool.not_true]
  refine ⟨(), trivial, (), trivial, (), ?_, .authority, rfl, (), tunnel, trivial⟩
  exact List.any_eq_false.mpr fun byte inside => by simpa using narrow byte inside

/-- A tunnel leads to a host and a port, unless its target has two ports. -/
theorem connects_authority (uri : Str) :
    (RequestDecoder.Connects uri ∨ Request.Connects uri → IsAuthorityForm uri) ↔
      ¬ IsTwicePorted uri := by
  constructor
  · -- A target with two ports connects, and is no authority.
    intro grammar twice
    exact not_isAuthorityForm_twice twice (grammar (.inl (connects_twice twice)))
  · intro single connects
    obtain ⟨valid, target, accepted⟩ := connects.elim connects_target Request.Connects.target
    obtain ⟨host, port, isHost, isPort, whole⟩ := (validateAuthorityForm_target target).mp accepted
    exact (isHostPort_cases valid isHost isPort whole).resolve_right single

/-- A tunnel to a host with two ports is accepted on both sides. -/
theorem connects_authority_twice :
    (RequestDecoder.Connects "a:1:2".toList ∧ Request.Connects "a:1:2".toList) ∧
      ¬ IsAuthorityForm "a:1:2".toList := by
  have twice : IsTwicePorted "a:1:2".toList := by
    -- The host is a name, and both ports are numbers.
    refine ⟨by decide, "a".toList, "1".toList, "2".toList, by decide,
      .inl ((isRegNameBytes_iff _).mp (by decide)), ⟨⟨by decide, by decide +kernel⟩, by decide⟩,
      ⟨⟨by decide, by decide +kernel⟩, by decide⟩, rfl⟩
  refine ⟨⟨connects_twice twice, ?_⟩, not_isAuthorityForm_twice twice⟩
  refine ⟨{
    method := "CONNECT".toList, uri := "a:1:2".toList, version := "HTTP/1.0".toList
    headers := [], body := none }, rfl, rfl, .inl ?_⟩
  decide

end Http11

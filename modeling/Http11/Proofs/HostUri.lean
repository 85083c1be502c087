import Http11.Proofs.UriParts

/-! A host that is read is the host of a URI whose authority it is written as. -/

namespace Http11

/-- Digits of a port are read by themselves. -/
theorem parsePort_ok {digits : Str} {number : Nat} (read : parsePort digits = .ok number) :
    IsPort digits ∧ parseU16 digits = some number := by
  refine ⟨(parsePort_iff digits).mp ⟨number, read⟩, ?_⟩
  unfold parsePort at read
  -- Only a port of digits that fits into 16 bits passes both checks.
  split at read
  · cases read
  · split at read
    · rename_i port found
      cases read
      exact found
    · cases read

/-- A port is written in digits that are read. -/
theorem parsePort_write {number : Nat} (small : number ≤ u16Max) :
    parsePort (Numerals.write 10 number) = .ok number := by
  -- What is written has digits only, and at least one of them.
  obtain ⟨digits, _⟩ := isDigits_write number
  have read : parseU16 (Numerals.write 10 number) = some number :=
    Numerals.read_write (by decide) (by decide) small
  have present : ¬ ((Numerals.write 10 number).isEmpty ||
      !(Numerals.write 10 number).all Char.isDigit) = true := by
    simpa [IsDigits] using digits
  rw [parsePort, if_neg present, read]

namespace Host.IsRead

variable {host : Host} {text : Str} (read : host.IsRead text)

include read

/-- Characters that stand in no host and in no port stand in nothing that is read. -/
theorem not_mem {char : Char} (ascii : char.toNat < 0x80)
    (unnamed : (isNameByte (UInt8.ofNat char.toNat) || isAsciiHexdigit (UInt8.ofNat char.toNat) ||
      UInt8.ofNat char.toNat == 0x25) = false)
    (unbracketed : char ≠ '[' ∧ char ≠ ']') (refused : ¬ isAddressChar 16 ['.', ':'] char)
    (refusedLater : isIpvfutureChar (UInt8.ofNat char.toNat) = false) (colon : char ≠ ':')
    (digit : char.isDigit = false) : char ∉ text := by
  have inHost := read.valid.not_mem ascii unnamed unbracketed refused refusedLater
  rcases read.whole with ⟨rfl, _⟩ | ⟨digits, number, rfl, ported, _⟩
  · exact inHost
  · have inPort : char ∉ digits := (parsePort_ok ported).1.not_mem digit
    simp [inHost, colon, inPort]

/-- The text is an authority without a user. -/
theorem userless : '@' ∉ text :=
  read.not_mem (by decide) (by decide) (by decide) (by decide) (by decide) (by decide)
    (by decide)

/-- The text is not empty. -/
theorem present : text ≠ [] := by
  rcases read.whole with ⟨rfl, _⟩ | ⟨_, _, rfl, _⟩
  · exact read.filled
  · simp

/-- The characters are those of an authority. -/
theorem inAuthority : ∀ char ∈ text, Uri.inAuthority char = true := by
  -- None of the three characters that end an authority is allowed in a host.
  have slash : '/' ∉ text := read.not_mem (by decide) (by decide) (by decide) (by decide)
    (by decide) (by decide) (by decide)
  have query : '?' ∉ text := read.not_mem (by decide) (by decide) (by decide) (by decide)
    (by decide) (by decide) (by decide)
  have fragment : '#' ∉ text := read.not_mem (by decide) (by decide) (by decide) (by decide)
    (by decide) (by decide) (by decide)
  intro char inside
  have first : char ≠ '/' := fun same => slash (by rwa [← same])
  have second : char ≠ '?' := fun same => query (by rwa [← same])
  have third : char ≠ '#' := fun same => fragment (by rwa [← same])
  simp [Uri.inAuthority, first, second, third]

/-- The authority ends its host where the host that was read ends, and it has the same port. -/
theorem parseHostPart : ∃ hostEnd, Uri.parseHostPart text text = .ok (hostEnd, host.port) ∧
    text.take hostEnd = host.host := by
  have valid := read.valid
  have whole := read.whole
  obtain ⟨name, port⟩ := host
  dsimp only at valid whole ⊢
  rcases valid with isName | ⟨inner, rfl, address⟩
  · -- A name has neither brackets nor colons.
    have colonless : ':' ∉ name := isName.not_mem (by decide) (by decide)
    have bracketless : '[' ∉ name := isName.not_mem (by decide) (by decide)
    have unbracketed : name.head? ≠ some '[' := fun first =>
      bracketless (List.mem_of_head? first)
    have named := (Uri.validateHost_iff unbracketed).mpr isName
    unfold Uri.parseHostPart
    rcases whole with ⟨rfl, rfl⟩ | ⟨digits, number, rfl, ported, rfl⟩
    · rw [if_neg (by simpa using unbracketed), rsplitOnce_none colonless]
      dsimp only
      rw [named]
      exact ⟨text.length, rfl, List.take_length⟩
    · obtain ⟨isPort, value⟩ := parsePort_ok ported
      have first : ¬ ((name ++ ':' :: digits).head? == some '[') = true := by
        rw [beq_iff_eq, List.head?_append]
        cases name with
        | nil => simp
        | cons char rest => simpa using unbracketed
      rw [if_neg first, rsplitOnce_append (isPort.not_mem (by decide))]
      dsimp only
      rw [named, if_neg (by simpa using isPort.1.1), value]
      refine ⟨_, rfl, ?_⟩
      rw [Nat.sub_self, Nat.zero_add, List.take_left]
  · have plain : ']' ∉ '[' :: inner := by
      have inside : ']' ∉ inner :=
        not_mem_address address (by decide) (by decide) (by decide)
      simp [inside]
    have literal := (Uri.validateIpLiteral_iff inner).mpr address
    have split : ∀ behind, splitOnce ']' ('[' :: (inner ++ ']' :: behind)) =
        some ('[' :: inner, behind) := splitOnce_append plain
    unfold Uri.parseHostPart
    rcases whole with ⟨rfl, rfl⟩ | ⟨digits, number, rfl, ported, rfl⟩
    · rw [if_pos (by simp), split]
      dsimp only
      rw [List.drop_one, List.tail_cons, literal]
      exact ⟨_, rfl, List.take_length⟩
    · obtain ⟨isPort, value⟩ := parsePort_ok ported
      have joined : '[' :: (inner ++ [']']) ++ ':' :: digits =
          '[' :: (inner ++ ']' :: ':' :: digits) := by
        simp
      rw [joined, if_pos (by simp), split]
      dsimp only
      rw [List.drop_one, List.tail_cons, literal]
      simp only [Bind.bind, Except.bind, value]
      refine ⟨_, rfl, ?_⟩
      -- The host ends in front of the colon.
      rw [← joined, List.length_append, Nat.add_sub_cancel, List.take_left]

/-- The text with a scheme in front and a slash behind it is a URI with this host and port. -/
theorem parse_uri : ∃ uri, Uri.parse ("http://".toList ++ text ++ ['/']) = .ok uri ∧
    uri.host = some host.host ∧ uri.port = host.port ∧ uri.path = ['/'] := by
  obtain ⟨hostEnd, parsed, front⟩ := read.parseHostPart
  -- A host has no at sign, so the authority is the host and its port.
  have authority : Uri.checkAuthority (some text) = .ok (hostEnd, host.port) := by
    change Uri.parseAuthority text = _
    rw [Uri.parseAuthority, if_neg (by simpa using read.present), Uri.splitUserinfo,
      rsplitOnce_none read.userless]
    exact parsed
  have result := Uri.parse_rooted [] none read.inAuthority authority
    (.single (by decide) (by decide)) (fun query same => (by cases same))
  rw [References.marked, List.append_nil] at result
  refine ⟨_, result, ?_, rfl, rfl⟩
  -- The host is cut out of the authority at the same place.
  have userless : '@' ∉ text.take hostEnd := fun inside => read.userless (List.mem_of_mem_take inside)
  rw [Uri.host, Option.map_some]
  dsimp only
  rw [rsplitOnce_none userless, front]

/-- A host is written as what is read as the same. -/
theorem display (plain : ∀ char ∈ text, isWhitespace char = false) :
    Host.parse host.display = .ok host := by
  -- The name is all of the text or the part in front of the colon.
  have inText : ∀ char ∈ host.host, char ∈ text := by
    intro char inside
    rcases read.whole with ⟨rfl, _⟩ | ⟨_, _, rfl, _⟩
    · exact inside
    · exact List.mem_append_left _ inside
  have dark : ∀ char ∈ host.host, isWhitespace char = false :=
    fun char inside => plain char (inText char inside)
  obtain ⟨name, port⟩ := host
  have filled := read.filled
  have valid := read.valid
  -- Without a port the name is written alone.
  rcases read.whole with ⟨_, same⟩ | ⟨digits, number, _, ported, same⟩
  · cases same
    exact (Host.parse_eq_iff dark _).mpr ⟨filled, valid, .inl ⟨rfl, rfl⟩⟩
  · -- A port is written in decimal, which need not be the digits that were read.
    cases same
    have small : number ≤ u16Max := Numerals.read_le (parsePort_ok ported).2
    have visible : ∀ char ∈ Numerals.write 10 number, isWhitespace char = false :=
      Numerals.forall_mem_write (by decide) (by decide) number
    refine (Host.parse_eq_iff ?_ _).mpr ⟨filled, valid, .inr ⟨_, number, rfl, parsePort_write small, rfl⟩⟩
    exact List.forall_mem_append.mpr ⟨dark, List.forall_mem_cons.mpr ⟨by decide, visible⟩⟩

end Host.IsRead

/-- A host that is read is visible. -/
theorem Host.parse_visible {text : Str} {host : Host} (trimmed : trimOws text = text)
    (parsed : Host.parse text = .ok host) : ∀ char ∈ text, isWhitespace char = false := by
  unfold Host.parse at parsed
  rw [trimmed] at parsed
  dsimp only at parsed
  split at parsed
  · cases parsed
  · -- A text with white space was refused.
    split at parsed
    · cases parsed
    · rename_i visible
      simpa using visible

/-- A host that is read from a text without spaces and tabs around it is the host of the URI whose
authority the text is, with the same port, and it is written as what is read as the same host. -/
theorem hosts_agree (text : Str) (host : Host) (trimmed : trimOws text = text)
    (parsed : Host.parse text = .ok host) :
    (∃ uri, Uri.parse ("http://".toList ++ text ++ ['/']) = .ok uri ∧
      uri.host = some host.host ∧ uri.port = host.port ∧ uri.path = ['/']) ∧
    Host.parse host.display = .ok host := by
  have visible := Host.parse_visible trimmed parsed
  have read := (Host.parse_eq_iff visible host).mp parsed
  exact ⟨read.parse_uri, read.display visible⟩

/-- An address between brackets with a port with zeros in front. -/
theorem hosts_agree_address :
    (∃ uri, Uri.parse "http://[::1]:0080/".toList = .ok uri ∧ uri.host = some "[::1]".toList ∧
      uri.port = some 80 ∧ uri.path = ['/']) ∧
    Host.parse "[::1]:80".toList = .ok ⟨"[::1]".toList, some 80⟩ :=
  hosts_agree "[::1]:0080".toList ⟨"[::1]".toList, some 80⟩ (by decide) (by decide)

end Http11

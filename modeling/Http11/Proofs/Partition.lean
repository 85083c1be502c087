import Http11.Proofs.Resolve
import Http11.Proofs.StoredUri

/-! What a URI is stored as is a partition of its text. -/

namespace Http11

namespace Uri

/-- A host in brackets is an address. -/
theorem validateHost_bracketed {inner : Str} (valid : validateIpLiteral inner = .ok ())
    (plain : ']' ∉ inner) : validateHost ('[' :: (inner ++ [']'])) = .ok () := by
  have split : splitOnce ']' ('[' :: (inner ++ [']'])) = some ('[' :: inner, []) :=
    @splitOnce_append ']' ('[' :: inner) (by simpa using plain) []
  rw [validateHost, if_neg (by simp), if_pos (by simp), split]
  exact valid

/-- What is read of a host: its name, what stands behind it, and where the host is said to end. -/
structure HostTells (user named : Str) (hostEnd : Nat) (number : Option Nat) (name : Str)
    (port : Option Str) : Prop where
  /-- A name, and a port behind a colon. -/
  whole : named = name ++ References.marked [':'] port
  /-- The name is a host. -/
  valid : validateHost name = .ok ()
  /-- Colons stand only in an address between brackets. -/
  colons : ':' ∉ name ∨ IsIpLiteral name
  /-- The host ends with the name, or behind a colon without a port. -/
  ends : (user ++ named).take hostEnd = user ++ (if port = some [] then name ++ [':'] else name)
  /-- The number is that of the port. -/
  number : number = port.bind parseU16
  /-- A port that is not empty has a number. -/
  read : ∀ text, port = some text → text = [] ∨ ∃ value, parseU16 text = some value

/-- A host in brackets is read as its address and its port. -/
theorem parseHostPart_bracketed {user named : Str} {hostEnd : Nat} {number : Option Nat}
    (bracket : (named.head? == some '[') = true)
    (parsed : parseHostPart (user ++ named) named = .ok (hostEnd, number)) :
    ∃ name port, HostTells user named hostEnd number name port := by
  have all : (user ++ named).take (user ++ named).length = user ++ named := List.take_length
  unfold parseHostPart at parsed
  rw [if_pos bracket] at parsed
  cases split : splitOnce ']' named with
  | none =>
    rw [split] at parsed
    cases parsed
  | some parts =>
    obtain ⟨front, behind⟩ := parts
    rw [split] at parsed
    obtain ⟨valid, told⟩ := Checked.seq_ok.mp parsed
    obtain ⟨whole, plain⟩ := splitOnce_some split
    -- The first character is the bracket, so that the address stands behind it.
    obtain ⟨inner, rfl⟩ : ∃ inner, front = '[' :: inner := by
      cases front with
      | nil =>
        rw [whole] at bracket
        cases bracket
      | cons first inner =>
        rw [whole, List.cons_append, List.head?_cons, beq_iff_eq, Option.some.injEq] at bracket
        exact ⟨inner, by rw [bracket]⟩
    rw [List.drop_one, List.tail_cons] at valid
    have bracketless : ']' ∉ inner := fun inside => plain (List.mem_cons_of_mem _ inside)
    have isLiteral : IsIpLiteral ('[' :: (inner ++ [']'])) :=
      ⟨inner, rfl, (validateIpLiteral_iff inner).mp valid⟩
    have host := validateHost_bracketed valid bracketless
    have named_eq : named = '[' :: (inner ++ [']']) ++ behind := by
      rw [whole]
      simp
    -- No port, a port behind a colon, or something that is refused.
    by_cases empty : behind = []
    · subst empty
      cases told
      exact ⟨_, none, by rw [named_eq]; rfl, host, .inr isLiteral, by
        rw [all, named_eq]; simp, rfl, fun _ none => (by cases none)⟩
    by_cases colon : ∃ port, behind = ':' :: port
    · obtain ⟨port, rfl⟩ := colon
      cases value : parseU16 port with
      | none =>
        simp only [value] at told
        cases told
      | some read =>
        simp only [value] at told
        cases told
        have present : port ≠ [] := fun empty => by
          rw [empty] at value
          cases value
        refine ⟨_, some port, named_eq, host, .inr isLiteral, ?_, value.symm,
          fun text same => ?_⟩
        · have count : (user ++ named).length - (':' :: port).length =
              (user ++ '[' :: (inner ++ [']'])).length := by
            rw [named_eq]
            simp only [List.length_append]
            omega
          rw [if_neg (by simpa using present), count, named_eq, ← List.append_assoc,
            List.take_left]
        · rw [← Option.some.inj same]
          exact .inr ⟨read, value⟩
    · exfalso
      split at told
      · exact absurd rfl empty
      · exact absurd ⟨_, rfl⟩ colon
      · cases told

/-- A host without brackets is read as its name and its port. -/
theorem parseHostPart_unbracketed {user named : Str} {hostEnd : Nat} {number : Option Nat}
    (bracket : ¬ (named.head? == some '[') = true)
    (parsed : parseHostPart (user ++ named) named = .ok (hostEnd, number)) :
    ∃ name port, HostTells user named hostEnd number name port := by
  have all : (user ++ named).take (user ++ named).length = user ++ named := List.take_length
  unfold parseHostPart at parsed
  rw [if_neg bracket] at parsed
  have unbracketed : named.head? ≠ some '[' := by simpa using bracket
  cases split : rsplitOnce ':' named with
  | none =>
    rw [split] at parsed
    obtain ⟨valid, told⟩ := Checked.seq_ok.mp parsed
    cases told
    exact ⟨named, none, (List.append_nil _).symm, valid, .inl (not_mem_of_rsplitOnce split), by
      rw [all]; simp, rfl, fun _ none => (by cases none)⟩
  | some parts =>
    obtain ⟨name, port⟩ := parts
    rw [split] at parsed
    obtain ⟨valid, told⟩ := Checked.seq_ok.mp parsed
    obtain ⟨whole, plain⟩ := rsplitOnce_some split
    -- The name begins as the whole does, so it is no address.
    have nameless : name.head? ≠ some '[' := by
      intro first
      refine unbracketed ?_
      rw [whole, List.head?_append, first]
      rfl
    have isName := (validateHost_iff nameless).mp valid
    have colonless : ':' ∉ name := IsEncoded.not_mem isName (by decide) (by decide)
    -- An empty port leaves its colon with the host.
    by_cases empty : port = []
    · subst empty
      rw [if_pos List.isEmpty_nil] at told
      cases told
      exact ⟨name, some [], whole, valid, .inl colonless, by rw [all, whole]; rfl, rfl,
        fun text same => .inl (Option.some.inj same).symm⟩
    · rw [if_neg (by simpa using empty)] at told
      cases value : parseU16 port with
      | none =>
        rw [value] at told
        cases told
      | some read =>
        rw [value] at told
        cases told
        refine ⟨name, some port, whole, valid, .inl colonless, ?_, value.symm, fun text same => ?_⟩
        · have count : (user ++ named).length - named.length + name.length =
              (user ++ name).length := by
            rw [List.length_append, List.length_append, Nat.add_sub_cancel]
          rw [if_neg (by simpa using empty), count, whole, ← List.append_assoc, List.take_left]
        · rw [← Option.some.inj same]
          exact .inr ⟨read, value⟩

/-- A host is read as its name and its port. -/
theorem parseHostPart_tells {user named : Str} {hostEnd : Nat} {number : Option Nat}
    (parsed : parseHostPart (user ++ named) named = .ok (hostEnd, number)) :
    ∃ name port, HostTells user named hostEnd number name port := by
  by_cases bracket : (named.head? == some '[') = true
  · exact parseHostPart_bracketed bracket parsed
  · exact parseHostPart_unbracketed bracket parsed

/-- An authority is read as its user, its host and its port. -/
theorem parseAuthority_tells {authority : Str} {hostEnd : Nat} {number : Option Nat}
    (parsed : parseAuthority authority = .ok (hostEnd, number)) :
    ∃ user named name port, IsUser user ∧ authority = user ++ named ∧ '@' ∉ named ∧
      HostTells user named hostEnd number name port := by
  unfold parseAuthority at parsed
  -- The empty authority has an empty host and no port.
  by_cases empty : authority = []
  · subst empty
    rw [if_pos List.isEmpty_nil] at parsed
    cases parsed
    exact ⟨[], [], [], none, .inl rfl, rfl, List.not_mem_nil, rfl, rfl, .inl List.not_mem_nil, rfl,
      rfl, fun _ none => (by cases none)⟩
  rw [if_neg (by simpa using empty)] at parsed
  obtain ⟨named, split, told⟩ := Checked.bind_ok.mp parsed
  unfold splitUserinfo at split
  -- Without an at sign the whole authority is host and port.
  cases user : rsplitOnce '@' authority with
  | none =>
    rw [user] at split
    cases split
    obtain ⟨name, port, tells⟩ := @parseHostPart_tells [] authority _ _ told
    exact ⟨[], authority, name, port, .inl rfl, rfl, not_mem_of_rsplitOnce user, tells⟩
  -- The last at sign ends the user, so none is left in the host.
  | some parts =>
    obtain ⟨userinfo, host⟩ := parts
    rw [user] at split
    obtain ⟨_, valid, rfl⟩ := Checked.map_ok.mp split
    obtain ⟨whole, plain⟩ := rsplitOnce_some user
    have isUser : IsEncoded isUserByte (Utf8.encode userinfo) :=
      (validateEncoded_iff (by decide) _).mp valid
    have same : authority = userinfo ++ ['@'] ++ host := by rw [whole]; simp
    rw [same] at told
    obtain ⟨name, port, tells⟩ := parseHostPart_tells told
    exact ⟨userinfo ++ ['@'], host, name, port, .inr ⟨userinfo, isUser, rfl⟩, same, plain, tells⟩

/-- The host of an authority is what is read as its name, with the colon of an empty port. -/
theorem HostTells.host {user named name : Str} {hostEnd : Nat} {number : Option Nat}
    {port : Option Str} (tells : HostTells user named hostEnd number name port)
    (isUser : IsUser user) (userless : '@' ∉ named) :
    (match rsplitOnce '@' ((user ++ named).take hostEnd) with
      | some (_, host) => host
      | none => (user ++ named).take hostEnd) = if port = some [] then name ++ [':'] else name := by
  rw [tells.ends]
  -- The colon of an empty port stays with the host, and is no at sign either.
  have plain : '@' ∉ (if port = some [] then name ++ [':'] else name) := by
    rw [tells.whole] at userless
    split
    · rename_i empty
      rwa [empty] at userless
    · exact fun inside => userless (List.mem_append_left _ inside)
  generalize (if port = some [] then name ++ [':'] else name) = host at plain ⊢
  -- With no user there is no at sign at all, else the last one is that of the user.
  rcases isUser with rfl | ⟨info, _, rfl⟩
  · rw [List.nil_append, rsplitOnce_none plain]
  · rw [List.append_assoc, List.singleton_append, rsplitOnce_append plain]

/-- A port without a sign is empty or made of digits, and its number is theirs. -/
theorem HostTells.digits {user named name : Str} {hostEnd : Nat} {number : Option Nat}
    {port : Option Str} (tells : HostTells user named hostEnd number name port)
    (unsigned : ∀ digits, port ≠ some ('+' :: digits)) :
    (∀ text, port = some text → text = [] ∨ IsDigits text) ∧
      ∀ value, number = some value ↔ ∃ digits, port = some digits ∧ IsDigits digits ∧
        Numerals.value 10 digits = value ∧ value ≤ u16Max := by
  have reads : ∀ text value, port = some text → (parseU16 text = some value ↔
      IsDigits text ∧ Numerals.value 10 text = value ∧ value ≤ u16Max) := by
    intro text value same
    have read : parseU16 text = some value ↔ _ := Numerals.read_iff (by decide)
    refine read.trans ⟨fun found => ?_, fun digits => ?_⟩
    · -- A sign in front is the only other way to read a number.
      obtain ⟨digits, rfl | signed, present, decimal, known⟩ := found
      · exact ⟨⟨present, (areDigits_iff text).mp decimal⟩, known⟩
      · exact absurd (same.trans (congrArg some signed)) (unsigned digits)
    · exact ⟨text, .inl rfl, digits.1.1, (areDigits_iff text).mpr digits.1.2, digits.2⟩
  rw [tells.number]
  constructor
  · -- A port that is there was read, or it is empty.
    intro text same
    refine (tells.read text same).imp id fun read => ?_
    obtain ⟨value, found⟩ := read
    exact ((reads text value same).mp found).1
  · intro value
    constructor
    · intro found
      obtain ⟨text, same, read⟩ := Option.bind_eq_some_iff.mp found
      exact ⟨text, same, (reads text value same).mp read⟩
    · intro known
      obtain ⟨text, same, digits⟩ := known
      exact Option.bind_eq_some_iff.mpr ⟨text, same, (reads text value same).mpr digits⟩

end Uri

/-- The parts of a URI make up its text, and those of its authority make up that. -/
theorem stored_partition {input : Str} {stored : StoredUri}
    (parsed : StoredUri.parse input = .ok stored) :
    ∃ parts : References.Parts, stored.scheme = some parts.scheme ∧
      stored.authority = some parts.authority ∧ stored.path = some parts.path ∧
      stored.query = some parts.query ∧ stored.fragment = some parts.fragment ∧
      References.recompose parts = input ∧
      ∀ authority, parts.authority = some authority → ∃ user name port, IsUser user ∧
        authority = user ++ (name ++ References.marked [':'] port) ∧
        Uri.validateHost name = .ok () ∧ (':' ∉ name ∨ IsIpLiteral name) ∧
        stored.host = some (some (if port = some [] then name ++ [':'] else name)) ∧
        ((∀ digits, port ≠ some ('+' :: digits)) →
          (∀ text, port = some text → text = [] ∨ IsDigits text) ∧
          ∀ value, stored.port = some value ↔ ∃ digits, port = some digits ∧ IsDigits digits ∧
            Numerals.value 10 digits = value ∧ value ≤ u16Max) := by
  have agrees := StoredUri.parse_agrees input
  -- Stored offsets and parsed parts fail together.
  cases known : Uri.parse input with
  | error failure =>
    rw [known] at agrees
    rw [show StoredUri.parse input = _ from agrees] at parsed
    cases parsed
  | ok uri =>
    rw [known] at agrees
    obtain ⟨other, same, stores⟩ := agrees
    rw [same, Except.ok.injEq] at parsed
    subst parsed
    obtain ⟨_, whole, _, _, accepted⟩ := Uri.parts_of_parse known
    -- The parts of the parsed text are those that the offsets cut out.
    refine ⟨uri.parts, stores.scheme, stores.authority, stores.path, stores.query,
      stores.fragment, whole, fun authority found => ?_⟩
    rw [show uri.authority = some authority from found] at accepted
    obtain ⟨user, named, name, port, isUser, rfl, userless, tells⟩ :=
      Uri.parseAuthority_tells accepted
    refine ⟨user, name, port, isUser, by rw [tells.whole], tells.valid, tells.colons, ?_,
      fun unsigned => ?_⟩
    · rw [stores.host, Uri.host, show uri.authority = _ from found, ← tells.host isUser userless]
      rfl
    · rw [stores.port]
      exact tells.digits unsigned

/-- The parts of a URI that has all of them. -/
theorem stored_partition_full : ∃ stored parts,
    StoredUri.parse "http://a:b@c:80/d?e#f".toList = .ok stored ∧
      stored.authority = some parts.authority ∧ parts.authority = some "a:b@c:80".toList ∧
      References.recompose parts = "http://a:b@c:80/d?e#f".toList := by
  have parsed : StoredUri.parse "http://a:b@c:80/d?e#f".toList =
      .ok ⟨"http://a:b@c:80/d?e#f".toList, some 4, some 7, some 15, some 12, some 80, 15, 17,
        some 18, some 19, some 20⟩ := by decide +kernel
  obtain ⟨parts, _, authority, _, _, _, whole, _⟩ := stored_partition parsed
  refine ⟨_, parts, parsed, authority, ?_, whole⟩
  -- The authority is the text between its positions.
  exact Option.some.inj (authority.symm.trans (by decide))

/-- A colon without a port stays with the host. -/
theorem empty_port : ∃ input stored host, StoredUri.parse input = .ok stored ∧
    stored.host = some (some host) ∧ ¬ (':' ∉ host ∨ host.head? = some '[') := by
  have parsed : StoredUri.parse "http://a:".toList = .ok ⟨"http://a:".toList, some 4, some 7,
      some 9, some 9, none, 9, 9, none, none, none⟩ := by decide +kernel
  exact ⟨_, _, "a:".toList, parsed, by decide, by decide⟩

end Http11

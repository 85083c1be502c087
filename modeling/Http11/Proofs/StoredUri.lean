import Http11.Proofs.AuthParams
import Http11.Proofs.UriParts
import Http11.StoredUri

/-! The positions that are stored for a URI cut its text into its parts. -/

namespace Http11

namespace StoredUri

/-- The end of a host in the bytes of an authority. -/
def inBytes (authority : Str) (result : Nat × Option Nat) : Nat × Option Nat :=
  (byteLength (authority.take result.1), result.2)

/-- The end of an authority is that of its bytes. -/
theorem inBytes_whole (authority : Str) (port : Option Nat) :
    inBytes authority (authority.length, port) = (byteLength authority, port) := by
  rw [inBytes, List.take_length]

/-- What follows a check that both fail or pass. -/
theorem map_seq {Failure Value Result : Type} (check : Except Failure Unit)
    {change : Value → Result} {next : Except Failure Value} {other : Except Failure Result}
    (same : other = next.map change) :
    (do check; other) = (do check; next).map change := by
  cases check with
  | error failure => rfl
  | ok done => exact same

/-- The end of a part in front of another one, counted from behind. -/
theorem inBytes_front (front back : Str) (port : Option Nat) :
    inBytes (front ++ back) ((front ++ back).length - back.length, port) =
      (byteLength (front ++ back) - byteLength back, port) := by
  have count : (front ++ back).length - back.length = front.length := by
    rw [List.length_append, Nat.add_sub_cancel]
  rw [inBytes, count, byteLength_append, Nat.add_sub_cancel, List.take_left]

/-- The host of an authority ends at the same character. -/
theorem parseHostPart_eq {user hostPart : Str}
    (behind : (user = [] ∧ rsplitOnce '@' (user ++ hostPart) = none) ∨
      ∃ userinfo, user = userinfo ++ ['@'] ∧
        rsplitOnce '@' (user ++ hostPart) = some (userinfo, hostPart)) :
    parseHostPart (user ++ hostPart) hostPart =
      (Uri.parseHostPart (user ++ hostPart) hostPart).map (inBytes (user ++ hostPart)) := by
  have whole := inBytes_whole (user ++ hostPart)
  unfold parseHostPart Uri.parseHostPart
  by_cases bracket : (hostPart.head? == some '[') = true
  · rw [if_pos bracket, if_pos bracket]
    cases split : splitOnce ']' hostPart with
    | none => rfl
    | some parts =>
      obtain ⟨front, afterBracket⟩ := parts
      have same : user ++ hostPart = (user ++ (front ++ [']'])) ++ afterBracket := by
        rw [(splitOnce_some split).1]
        simp
      have ends := inBytes_front (user ++ (front ++ [']'])) afterBracket
      rw [← same] at ends
      refine map_seq _ ?_
      by_cases empty : afterBracket = []
      · subst empty
        exact congrArg Except.ok (whole none).symm
      by_cases colon : ∃ port, afterBracket = ':' :: port
      · obtain ⟨port, rfl⟩ := colon
        cases found : parseU16 port with
        | none =>
          simp only [found]
          rfl
        | some number =>
          simp only [found]
          exact congrArg Except.ok (ends (some number)).symm
      · -- Anything else behind the bracket is refused by both.
        repeat' split
        all_goals
          first
          | exact absurd rfl empty
          | exact absurd ⟨_, rfl⟩ colon
          | rfl
  · rw [if_neg bracket, if_neg bracket]
    cases split : rsplitOnce ':' hostPart with
    | none => exact map_seq _ (congrArg Except.ok (whole none).symm)
    | some parts =>
      obtain ⟨hostStr, portStr⟩ := parts
      refine map_seq _ ?_
      by_cases empty : portStr.isEmpty = true
      · rw [if_pos empty, if_pos empty]
        exact congrArg Except.ok (whole none).symm
      rw [if_neg empty, if_neg empty]
      cases parseU16 portStr with
      | none => rfl
      | some port =>
        have count : (user ++ hostPart).length - hostPart.length + hostStr.length =
            (user ++ hostStr).length := by
          rw [List.length_append, List.length_append, Nat.add_sub_cancel]
        have taken : (user ++ hostPart).take (user ++ hostStr).length = user ++ hostStr := by
          rw [(rsplitOnce_some split).1, ← List.append_assoc, List.take_left]
        dsimp only
        refine Eq.trans ?_ (congrArg Except.ok (show (_, some port) = inBytes _ (_, some port) by
          rw [inBytes, count, taken]))
        rcases behind with userless | named
        · rw [userless.2, userless.1, List.nil_append]
        · obtain ⟨userinfo, rfl, found⟩ := named
          rw [found, byteLength_append, byteLength_append]
          rfl

/-- The end of a host and the port of an authority are found in its bytes as in its text. -/
theorem parseAuthority_eq (authority : Str) :
    parseAuthority authority = (Uri.parseAuthority authority).map (inBytes authority) := by
  unfold parseAuthority Uri.parseAuthority
  -- The empty authority is answered before anything is split.
  by_cases empty : authority.isEmpty = true
  · rw [if_pos empty, if_pos empty]
    rfl
  rw [if_neg empty, if_neg empty]
  unfold Uri.splitUserinfo
  cases user : rsplitOnce '@' authority with
  | none => exact @parseHostPart_eq [] authority (.inl ⟨rfl, user⟩)
  -- The host starts behind the last at sign.
  | some parts =>
    obtain ⟨userinfo, hostPart⟩ := parts
    have whole : userinfo ++ ['@'] ++ hostPart = authority := by
      rw [(rsplitOnce_some user).1]
      simp
    have same := @parseHostPart_eq (userinfo ++ ['@']) hostPart
      (.inr ⟨userinfo, rfl, by rw [whole, user]⟩)
    -- A user that is not valid fails in both.
    rw [whole] at same
    dsimp only
    cases Uri.validateUserinfo userinfo with
    | error failure => rfl
    | ok done => exact same

/-- Characters of schemes are ASCII, and told by their bytes. -/
theorem isSchemeChar_byte (char : Char) :
    (Uri.isSchemeChar char = true → char.toNat < 0x80) ∧
      (char.toNat < 0x80 →
        isSchemeByte (UInt8.ofNat char.toNat) = Uri.isSchemeChar char) := by
  constructor
  · intro schemeChar
    by_contra high
    -- Neither a letter or a digit nor one of the three signs is past ASCII.
    have plus : char ≠ '+' := ne_of_high (by omega) (by decide)
    have minus : char ≠ '-' := ne_of_high (by omega) (by decide)
    have dot : char ≠ '.' := ne_of_high (by omega) (by decide)
    have signs : "+-.".toList = ['+', '-', '.'] := rfl
    rw [Uri.isSchemeChar, signs] at schemeChar
    simp only [List.contains_cons, List.contains_nil, Bool.or_false, Bool.or_eq_true, beq_iff_eq,
      plus, minus, dot, or_false] at schemeChar
    have small : ∀ other : Char, other.isAlphanum = true → other.toNat < 0x80 := by
      intro other own
      delta Char.isAlphanum Char.isAlpha Char.isUpper Char.isLower Char.isDigit at own
      simp only [Bool.or_eq_true, Bool.and_eq_true, decide_eq_true_eq, ge_iff_le,
        UInt32.le_iff_toNat_le] at own
      change (_ ∧ other.val.toNat ≤ 90 ∨ _ ∧ other.val.toNat ≤ 122) ∨ _ ∧ other.val.toNat ≤ 57
        at own
      change other.val.toNat < 0x80
      omega
    exact high (small char schemeChar)
  · intro ascii
    exact forall_ascii (motive := fun char =>
      isSchemeByte (UInt8.ofNat char.toNat) = Uri.isSchemeChar char) (by decide) ascii

/-- A scheme ends in the bytes of a text where it does in its characters. -/
theorem findSchemeEnd_encode (index : Nat) (text : Str) :
    findSchemeEnd index (Utf8.encode text) = Uri.findSchemeEnd index text := by
  induction text generalizing index with
  | nil => rfl
  | cons char text ih =>
    by_cases ascii : char.toNat < 0x80
    · have colon : UInt8.ofNat char.toNat = 0x3A ↔ char = ':' :=
        forall_ascii (motive := fun char => UInt8.ofNat char.toNat = 0x3A ↔ char = ':')
          (by decide) ascii
      have kind := (isSchemeChar_byte char).2 ascii
      rw [Utf8.encode_cons, Utf8.encodeChar_ascii ascii, List.singleton_append, findSchemeEnd,
        Uri.findSchemeEnd, ih, kind]
      by_cases same : char = ':'
      · rw [if_pos same, if_pos (colon.mpr same)]
      · rw [if_neg same, if_neg fun byte => same (colon.mp byte)]
        rfl
    · -- The first byte of another character is none of a scheme, either.
      have noColon : char ≠ ':' := ne_of_high (by omega) (by decide)
      have noScheme : Uri.isSchemeChar char = false :=
        Bool.eq_false_iff.mpr fun own => ascii ((isSchemeChar_byte char).1 own)
      have none : Uri.findSchemeEnd index (char :: text) = Option.none :=
        @Uri.findSchemeEnd_none [] _ List.not_mem_nil
          (.inr ⟨char, text, rfl, noColon, noScheme⟩) index
      have high : ∀ byte : UInt8, 0x80 ≤ byte.toNat →
          byte ≠ 0x3A ∧ isSchemeByte byte = false := forall_byte (by decide +kernel)
      obtain ⟨byte, rest, bytes⟩ := List.exists_cons_of_ne_nil (Utf8.encodeChar_ne_nil char)
      have wide := @Utf8.le_of_mem_encodeChar char (by omega) byte
        (show byte ∈ String.utf8EncodeChar char by rw [bytes]; exact List.mem_cons_self)
      obtain ⟨other, unschemed⟩ := high byte wide
      rw [none, Utf8.encode_cons, bytes, List.cons_append, findSchemeEnd, if_neg other,
        if_pos (by rw [unschemed]; rfl)]

/-- Where a text goes on behind its scheme. -/
def behindScheme : Option Nat → Nat
  | some colonPos => colonPos + 1
  | none => 0

/-- The scheme is checked in the bytes as it is in the text. -/
theorem parseScheme_eq (input : Str) :
    parseScheme (Utf8.encode input) =
      ((Uri.checkScheme (Uri.splitScheme input).1).mapError some).map
        fun _ => Uri.findSchemeEnd 0 input := by
  unfold parseScheme Uri.splitScheme
  rw [findSchemeEnd_encode]
  cases found : Uri.findSchemeEnd 0 input with
  | none => rfl
  | some stop =>
    obtain ⟨positive, front, back, rfl, same, chars⟩ := Uri.findSchemeEnd_some found
    rw [Nat.zero_add] at same
    subst same
    have ascii : ∀ char ∈ front, char.toNat < 0x80 := fun char inside =>
      (isSchemeChar_byte char).1 (chars char inside)
    have taken : (Utf8.encode (front ++ ':' :: back)).take front.length = Utf8.encode front := by
      rw [Utf8.encode_append]
      exact List.take_left' (byteLength_ascii ascii)
    obtain ⟨first, others, rfl⟩ := List.exists_cons_of_ne_nil (List.length_pos_iff.mp positive)
    obtain ⟨firstAscii, othersAscii⟩ := List.forall_mem_cons.mp ascii
    have bytes : ∀ rest : Str, Utf8.encode (first :: rest) =
        UInt8.ofNat first.toNat :: Utf8.encode rest := fun rest => by
      rw [Utf8.encode_cons, Utf8.encodeChar_ascii firstAscii]
      rfl
    -- The characters behind the first one were checked while the end was looked for.
    have checked : ((Utf8.encode (first :: others)).drop 1).all isSchemeByte = true := by
      rw [bytes, List.drop_one, List.tail_cons, List.all_eq_true]
      intro byte inside
      obtain ⟨char, member, own⟩ := Utf8.mem_encode.mp inside
      have charAscii := othersAscii char member
      rw [Utf8.encodeChar_ascii charAscii, List.mem_singleton] at own
      rw [own, (isSchemeChar_byte char).2 charAscii]
      exact chars char (List.mem_cons_of_mem _ member)
    have others' : ((first :: others).drop 1).all
        (fun char => char.isAlphanum || "+-.".toList.contains char) = true := by
      rw [List.all_eq_true]
      exact fun char inside => chars char (List.mem_of_mem_drop inside)
    have letter : isAsciiAlphabetic (UInt8.ofNat first.toNat) = first.isAlpha :=
      forall_ascii (motive := fun char =>
        isAsciiAlphabetic (UInt8.ofNat char.toNat) = char.isAlpha) (by decide) firstAscii
    have head : (Utf8.encode (first :: others ++ ':' :: back))[0]? =
        some (UInt8.ofNat first.toNat) := by
      rw [List.cons_append, bytes]
      rfl
    dsimp only
    rw [head, taken, checked, List.take_left, Option.any_some, letter, Uri.checkScheme, others',
      List.head?_cons, Option.any_some]
    cases first.isAlpha <;> rfl

/-- Behind the scheme stands what is split off behind it. -/
theorem at_behindScheme (input : Str) :
    At input (behindScheme (Uri.findSchemeEnd 0 input)) (Uri.splitScheme input).2 ∧
      (∀ stop, Uri.findSchemeEnd 0 input = some stop →
        slice input 0 stop = some (input.take stop)) := by
  unfold Uri.splitScheme
  cases found : Uri.findSchemeEnd 0 input with
  -- Without a scheme reading goes on at the start.
  | none => exact ⟨At.start input, fun _ none => (by cases none)⟩
  | some stop =>
    obtain ⟨_, front, back, rfl, same, chars⟩ := Uri.findSchemeEnd_some found
    rw [Nat.zero_add] at same
    subst same
    -- A scheme is ASCII, so its bytes are counted as its characters.
    have length : byteLength front = front.length := byteLength_ascii fun char inside =>
      (isSchemeChar_byte char).1 (chars char inside)
    have start := At.start (front ++ ':' :: back)
    have colon : At (front ++ ':' :: back) front.length (':' :: back) := by
      have forward := start.forward
      rwa [Nat.zero_add, length] at forward
    refine ⟨?_, fun other same => ?_⟩
    · -- The colon is one byte, and reading goes on behind it.
      have behind : (front ++ ':' :: back).drop (front.length + 1) = back := by
        rw [← List.singleton_append, ← List.append_assoc]
        exact List.drop_left' (by simp)
      dsimp only
      rw [behind]
      exact colon.next (by decide)
    · -- The scheme itself is cut out in front of the colon.
      rw [← Option.some.inj same, List.take_left]
      have cut := start.slice
      rwa [Nat.zero_add, length] at cut

/-- Bytes that belong to a part are those of its characters. -/
theorem ofKind_authority :
    ofKind (fun byte => byte != 0x2F && byte != 0x3F && byte != 0x23) = Uri.inAuthority := by
  refine @ofKind_eq _ true (forall_byte (by decide +kernel)) _ (by decide +kernel) ?_
  intro char high
  simp [Uri.inAuthority, ne_of_high high (show '/'.toNat < 0x80 by decide),
    ne_of_high high (show '?'.toNat < 0x80 by decide),
    ne_of_high high (show '#'.toNat < 0x80 by decide)]

/-- Bytes of a path are those of its characters. -/
theorem ofKind_path : ofKind (fun byte => byte != 0x3F && byte != 0x23) = Uri.inPath := by
  refine @ofKind_eq _ true (forall_byte (by decide +kernel)) _ (by decide +kernel) ?_
  intro char high
  simp [Uri.inPath, ne_of_high high (show '?'.toNat < 0x80 by decide),
    ne_of_high high (show '#'.toNat < 0x80 by decide)]

example : Uri.inPath '/' = true ∧ Uri.inPath '?' = false := by decide +kernel

/-- Bytes of a query are those of its characters. -/
theorem ofKind_query : ofKind (fun byte => byte != 0x23) = Uri.inQuery := by
  refine @ofKind_eq _ true (forall_byte (by decide +kernel)) _ (by decide +kernel) ?_
  intro char high
  simp [Uri.inQuery, ne_of_high high (show '#'.toNat < 0x80 by decide)]

section Positions

variable {input rest : Str} {pos : Nat}

/-- Two computations that fail for the same reason, or whose results belong together. -/
def Agrees {Left Right : Type} (related : Left → Right → Prop) (left : Except UriFailure Left)
    (right : Except UriError Right) : Prop :=
  match right with
  | .error failure => left = .error (some failure)
  | .ok result => ∃ other, left = .ok other ∧ related other result

/-- What follows two computations that agree may rely on it. -/
theorem Agrees.bind {Left Right LaterLeft LaterRight : Type} {related : Left → Right → Prop}
    {later : LaterLeft → LaterRight → Prop} {left : Except UriFailure Left}
    {right : Except UriError Right} {nextLeft : Left → Except UriFailure LaterLeft}
    {nextRight : Right → Except UriError LaterRight} (first : Agrees related left right)
    (next : ∀ other result, related other result →
      Agrees later (nextLeft other) (nextRight result)) :
    Agrees later (left >>= nextLeft) (right >>= nextRight) := by
  cases right with
  -- A failure of one is the failure of the other, and nothing follows.
  | error failure =>
    rw [show left = .error (some failure) from first]
    rfl
  | ok result =>
    obtain ⟨other, rfl, together⟩ := first
    exact next other result together

/-- A check agrees with itself. -/
theorem Agrees.check (check : Except UriError Unit) :
    Agrees (fun _ _ => True) (check.mapError some) check := by
  cases check with
  | error failure => rfl
  | ok done => exact ⟨done, rfl, trivial⟩

/-- A slice that cuts no character changes nothing. -/
theorem Agrees.cut {Part Left Right : Type} {related : Left → Right → Prop} {part : Option Part}
    {value : Part} {next : Part → Except UriFailure Left} {right : Except UriError Right}
    (found : part = some value) (agrees : Agrees related (next value) right) :
    Agrees related (StoredUri.cut part >>= next) right := by
  rw [found]
  exact agrees

/-- A byte that is there stands in front of the end. -/
theorem lt_of_getElem? {bytes : Bytes} {i : Nat} {byte : UInt8} (found : bytes[i]? = some byte) :
    i < bytes.length := (List.getElem?_eq_some_iff.mp found).1

/-- Two slashes stand at a position when the text goes on with them. -/
theorem slashes_iff (here : At input pos rest) :
    (pos + 1 < (Utf8.encode input).length ∧ (Utf8.encode input)[pos]? = some 0x2F ∧
      (Utf8.encode input)[pos + 1]? = some 0x2F) ↔ ∃ behind, rest = '/' :: '/' :: behind := by
  have slash : '/'.toNat < 0x80 := by decide
  constructor
  · -- Both slashes are one byte each.
    intro slashes
    obtain ⟨_, first, second⟩ := slashes
    obtain ⟨later, rfl⟩ := (here.byte_iff slash).mp first
    obtain ⟨behind, rfl⟩ := ((here.next slash).byte_iff slash).mp second
    exact ⟨behind, rfl⟩
  · intro slashes
    obtain ⟨behind, rfl⟩ := slashes
    have second := ((here.next slash).byte_iff slash).mpr ⟨behind, rfl⟩
    exact ⟨lt_of_getElem? second, (here.byte_iff slash).mpr ⟨_, rfl⟩, second⟩

/-- Without two slashes no authority is found. -/
theorem locateAuthority_none (here : At input pos rest)
    (none : (Uri.splitAuthority rest).1 = Option.none) :
    locateAuthority input pos = .ok (Option.none, Option.none, Option.none, Option.none, pos) ∧
      (Uri.splitAuthority rest).2 = rest := by
  obtain ⟨same, plain⟩ := (Uri.splitAuthority_separated rest).2 none
  refine ⟨if_neg fun slashes => plain ?_, same⟩
  obtain ⟨behind, rfl⟩ := (slashes_iff here).mp slashes
  exact ⟨behind, rfl⟩

/-- Behind two slashes the authority is found, and checked as in the text. -/
theorem locateAuthority_some (here : At input pos rest) {authority : Str}
    (found : (Uri.splitAuthority rest).1 = some authority) :
    At input (pos + 2) (authority ++ (Uri.splitAuthority rest).2) ∧
      locateAuthority input pos = ((Uri.parseAuthority authority).mapError some).map
        fun result => (some (pos + 2), some (pos + 2 + byteLength authority),
          some (pos + 2 + (inBytes authority result).1), result.2,
          pos + 2 + byteLength authority) := by
  have slash : '/'.toNat < 0x80 := by decide
  unfold Uri.splitAuthority at found ⊢
  cases stripped : stripPrefix "//".toList rest with
  | none =>
    rw [stripped] at found
    cases found
  | some behind =>
    rw [stripped] at found
    dsimp only at found ⊢
    have whole := stripPrefix_slashes stripped
    rw [whole] at here
    have start : At input (pos + 2) behind := (here.next slash).next slash
    have taken : behind.takeWhile Uri.inAuthority = authority := Option.some.inj found
    have narrow : IsNarrow (fun byte => byte != 0x2F && byte != 0x3F && byte != 0x23) true :=
      forall_byte (by decide +kernel)
    have stop := start.skip narrow
    have cutOut := start.slice_skip narrow
    rw [ofKind_authority, taken] at stop cutOut
    have parted : authority ++ behind.drop (behind.takeWhile Uri.inAuthority).length = behind := by
      rw [drop_takeWhile, ← taken, List.takeWhile_append_dropWhile]
    refine ⟨?_, ?_⟩
    · change At input (pos + 2)
        (authority ++ behind.drop (behind.takeWhile Uri.inAuthority).length)
      rwa [parted]
    · unfold locateAuthority
      dsimp only
      rw [if_pos ((slashes_iff here).mpr ⟨behind, rfl⟩), cutOut, stop]
      change (Except.mapError some (parseAuthority authority) >>= _) = _
      rw [parseAuthority_eq]
      -- The result of the check is passed on, with the end of the host counted in bytes.
      cases Uri.parseAuthority authority with
      | error failure => rfl
      | ok result => rfl

/-- An authority is found, cut out and refused as in the text. -/
theorem locateAuthority_agrees (here : At input pos rest) :
    Agrees (fun located told => At input located.2.2.2.2 (Uri.splitAuthority rest).2 ∧
        between input located.1 located.2.1 = some (Uri.splitAuthority rest).1 ∧
        between input located.1 located.2.2.1 =
          some ((Uri.splitAuthority rest).1.map (·.take told.1)) ∧ located.2.2.2.1 = told.2)
      (locateAuthority input pos) (Uri.checkAuthority (Uri.splitAuthority rest).1) := by
  cases found : (Uri.splitAuthority rest).1 with
  | none =>
    obtain ⟨located, same⟩ := locateAuthority_none here found
    refine ⟨_, located, ?_, rfl, rfl, rfl⟩
    rw [same]
    exact here
  | some authority =>
    obtain ⟨start, located⟩ := locateAuthority_some here found
    rw [Uri.checkAuthority]
    cases parsed : Uri.parseAuthority authority with
    | error failure =>
      rw [located, parsed]
      rfl
    | ok told =>
      have whole := start.slice
      -- The host is cut out in front of what follows it in the authority.
      have host : slice input (pos + 2) (pos + 2 + byteLength (authority.take told.1)) =
          some (authority.take told.1) := by
        rw [← List.take_append_drop told.1 authority, List.append_assoc] at start
        exact start.slice
      refine ⟨_, by rw [located, parsed]; rfl, start.forward, ?_, ?_, rfl⟩
      · rw [between, whole]
        rfl
      · rw [between, inBytes, host]
        rfl

/-- A part that a byte starts is found where the text goes on with its character. -/
theorem starts_iff (here : At input pos rest) {char : Char} (ascii : char.toNat < 0x80) :
    (pos < (Utf8.encode input).length ∧
      (Utf8.encode input)[pos]? = some (UInt8.ofNat char.toNat)) ↔
      ∃ behind, rest = char :: behind := by
  constructor
  · intro found
    exact (here.byte_iff ascii).mp found.2
  · intro there
    have found := (here.byte_iff ascii).mpr there
    exact ⟨lt_of_getElem? found, found⟩

/-- A query is found behind its question mark, and what follows it. -/
theorem locateQuery_eq (here : At input pos rest) :
    At input (locateQuery (Utf8.encode input) pos).2.2 (Uri.splitPart '?' rest).2 ∧
      ((∃ query first last, (Uri.splitPart '?' rest).1 = some query ∧
        (locateQuery (Utf8.encode input) pos).1 = some first ∧
        (locateQuery (Utf8.encode input) pos).2.1 = some last ∧
        slice input first last = some query) ∨
      (Uri.splitPart '?' rest).1 = none ∧ (locateQuery (Utf8.encode input) pos).1 = none ∧
        (locateQuery (Utf8.encode input) pos).2.1 = none) := by
  have ascii : '?'.toNat < 0x80 := by decide
  have iff := starts_iff here ascii
  -- A question mark stands at the position, or there is no query.
  by_cases mark : ∃ behind, rest = '?' :: behind
  · have found := iff.mpr mark
    obtain ⟨behind, rfl⟩ := mark
    have start := here.next ascii
    have narrow : IsNarrow (fun byte => byte != 0x23) true := forall_byte (by decide +kernel)
    -- The query goes on until a number sign.
    have skipped := start.skipped narrow
    have cutOut := start.slice_skip narrow
    rw [ofKind_query] at skipped cutOut
    have split : Uri.splitPart '?' ('?' :: behind) =
        (some (behind.takeWhile Uri.inQuery), behind.dropWhile Uri.inQuery) := by
      rw [← drop_takeWhile]
      rfl
    have located : locateQuery (Utf8.encode input) pos = (some (pos + 1),
        some (skipWhile (fun byte => byte != 0x23) (Utf8.encode input) (pos + 1)),
        skipWhile (fun byte => byte != 0x23) (Utf8.encode input) (pos + 1)) := if_pos found
    rw [split, located]
    exact ⟨skipped, .inl ⟨_, _, _, rfl, rfl, rfl, cutOut⟩⟩
  · -- Without one nothing is consumed.
    have located : locateQuery (Utf8.encode input) pos = (none, none, pos) :=
      if_neg fun found => mark (iff.mp found)
    have split : Uri.splitPart '?' rest = (none, rest) := by
      unfold Uri.splitPart
      cases rest with
      | nil => rfl
      | cons char rest => exact if_neg fun same => mark ⟨rest, by rw [same]⟩
    rw [split, located]
    exact ⟨here, .inr ⟨rfl, rfl, rfl⟩⟩

end Positions

/-- What is stored for a URI are its parts. -/
structure Stores (stored : StoredUri) (uri : Uri) : Prop where
  /-- Its text. -/
  source : stored.source = uri.source
  /-- Its scheme. -/
  scheme : stored.scheme = some uri.scheme
  /-- Its authority. -/
  authority : stored.authority = some uri.authority
  /-- Its host. -/
  host : stored.host = some uri.host
  /-- Its port. -/
  port : stored.port = uri.port
  /-- Its path. -/
  path : stored.path = some uri.path
  /-- Its query. -/
  query : stored.query = some uri.query
  /-- Its fragment. -/
  fragment : stored.fragment = some uri.fragment

/-- The fragment that follows a position, if any. -/
def fragmentAt (bytes : Bytes) (pos : Nat) : Option Nat :=
  if pos < bytes.length ∧ bytes[pos]? = some 0x23 then some (pos + 1) else none

/-- The fragment of the rest of a text. -/
def fragmentOf : Str → Option Str
  | '#' :: fragment => some fragment
  | _ => none

/-- A fragment is found behind its number sign. -/
theorem fragmentAt_eq {input rest : Str} {pos : Nat} (here : At input pos rest) :
    (∃ fragment first, fragmentOf rest = some fragment ∧
      fragmentAt (Utf8.encode input) pos = some first ∧ sliceFrom input first = some fragment) ∨
      fragmentOf rest = none ∧ fragmentAt (Utf8.encode input) pos = none := by
  have ascii : '#'.toNat < 0x80 := by decide
  have iff := starts_iff here ascii
  -- The fragment is all that stands behind a number sign.
  by_cases sign : ∃ behind, rest = '#' :: behind
  · have found := iff.mpr sign
    obtain ⟨behind, rfl⟩ := sign
    exact .inl ⟨behind, pos + 1, rfl, if_pos found, (here.next ascii).sliceFrom⟩
  · refine .inr ⟨?_, if_neg fun found => sign (iff.mp found)⟩
    unfold fragmentOf
    split
    · exact absurd ⟨_, rfl⟩ sign
    · rfl

/-- A scheme is found and refused in the bytes as in the text. -/
theorem parseScheme_agrees (input : Str) :
    Agrees (fun schemeEnd _ => schemeEnd = Uri.findSchemeEnd 0 input)
      (parseScheme (Utf8.encode input)) (Uri.checkScheme (Uri.splitScheme input).1) := by
  rw [parseScheme_eq]
  cases Uri.checkScheme (Uri.splitScheme input).1 with
  | error failure => rfl
  | ok done => exact ⟨_, rfl, rfl⟩

/-- Positions that cut out the parts of a URI store it. -/
theorem stores_located {input : Str} {first last hostStop port : Option Nat}
    {hostEnd pos pathEnd : Nat}
    (schemeCut : ∀ stop, Uri.findSchemeEnd 0 input = some stop →
      slice input 0 stop = some (input.take stop))
    (authorityCut : between input first last = some (Uri.scan input).authority)
    (hostCut : between input first hostStop =
      some ((Uri.scan input).authority.map (·.take hostEnd)))
    (pathCut : slice input pos pathEnd = some (Uri.scan input).path)
    {queryStart queryEnd fragmentStart : Option Nat}
    (query : between input queryStart queryEnd = some (Uri.scan input).query)
    (fragment : (match fragmentStart with
      | some first => (sliceFrom input first).map some
      | none => some none) = some (Uri.scan input).fragment) :
    Stores ⟨input, Uri.findSchemeEnd 0 input, first, last, hostStop, port, pos, pathEnd,
        queryStart, queryEnd, fragmentStart⟩
      ⟨input, (Uri.scan input).scheme, (Uri.scan input).authority, hostEnd, port,
        (Uri.scan input).path, (Uri.scan input).query, (Uri.scan input).fragment⟩ := by
  refine ⟨rfl, ?_, authorityCut, ?_, rfl, pathCut, query, fragment⟩
  · -- The scheme stands in front of its colon, if there is one.
    unfold scheme
    cases found : Uri.findSchemeEnd 0 input with
    | none =>
      change some Option.none = some (Uri.splitScheme input).1
      rw [Uri.splitScheme, found]
    | some stop =>
      change (slice input 0 stop).map some = some (Uri.splitScheme input).1
      rw [schemeCut stop found, Uri.splitScheme, found]
      rfl
  · -- The user is cut off the host in the same way.
    unfold host
    dsimp only
    rw [hostCut]
    change some (Option.map _ _) = some (Uri.host _)
    unfold Uri.host
    rw [Option.map_map]
    rfl

/-- A text is stored as the URI that it is, and refused for the same reason. -/
theorem parse_agrees (input : Str) : Agrees Stores (parse input) (Uri.parse input) := by
  by_cases empty : input = []
  · rw [empty]
    rfl
  obtain ⟨here, schemeCut⟩ := at_behindScheme input
  rw [Uri.parse_eq empty]
  unfold parse
  rw [if_neg (by simpa using empty)]
  dsimp only
  refine (parseScheme_agrees input).bind fun schemeEnd _ same => ?_
  subst same
  refine (locateAuthority_agrees here).bind fun located told found => ?_
  obtain ⟨first, last, hostStop, port, pos⟩ := located
  obtain ⟨hostEnd, number⟩ := told
  obtain ⟨behind, authorityCut, hostCut, rfl⟩ := found
  dsimp only at behind authorityCut hostCut ⊢
  -- The path, the query and the fragment follow one after the other.
  have narrow : IsNarrow (fun byte => byte != 0x3F && byte != 0x23) true :=
    forall_byte (by decide +kernel)
  have pathCut := behind.slice_skip narrow
  have behindPath := behind.skipped narrow
  rw [ofKind_path] at pathCut behindPath
  refine Agrees.cut pathCut ?_
  refine (Agrees.check _).bind fun _ _ _ => ?_
  obtain ⟨behindQuery, queried⟩ := locateQuery_eq behindPath
  have fragmented := fragmentAt_eq behindQuery
  rw [show (Uri.splitPart '?' ((Uri.splitAuthority (Uri.splitScheme input).2).2.dropWhile
    Uri.inPath)).1 = (Uri.scan input).query by rw [← drop_takeWhile]; rfl] at queried
  rw [show fragmentOf (Uri.splitPart '?' ((Uri.splitAuthority (Uri.splitScheme input).2).2.dropWhile
    Uri.inPath)).2 = (Uri.scan input).fragment by rw [← drop_takeWhile]; rfl] at fragmented
  -- The positions that were found so far cut out the parts in front of the query.
  have stores := @stores_located input first last hostStop port hostEnd pos _ schemeCut
    authorityCut hostCut pathCut
  unfold fragmentAt at fragmented
  generalize locateQuery (Utf8.encode input) (skipWhile (fun byte => byte != 0x3F && byte != 0x23)
    (Utf8.encode input) pos) = query at queried fragmented ⊢
  obtain ⟨queryStart, queryEnd, behindPos⟩ := query
  dsimp only at queried fragmented ⊢
  generalize (if behindPos < (Utf8.encode input).length ∧
    (Utf8.encode input)[behindPos]? = some 0x23 then some (behindPos + 1) else none) =
      fragmentStart at fragmented ⊢
  have query : ∀ text, (Uri.scan input).query = some text →
      Uri.checkPart Uri.validateQuery (Uri.scan input).query = Uri.validateQuery text :=
    fun text found => by rw [found]; rfl
  have fragment : ∀ text, (Uri.scan input).fragment = some text →
      Uri.checkPart Uri.validateFragment (Uri.scan input).fragment = Uri.validateFragment text :=
    fun text found => by rw [found]; rfl
  -- Each of the two may be there or not.
  rcases fragmented with some | none
  · obtain ⟨text, start, isFragment, rfl, fragmentCut⟩ := some
    rw [fragment text isFragment]
    have cutOut : (sliceFrom input start).map Option.some = Option.some (Uri.scan input).fragment := by
      rw [fragmentCut, isFragment]
      rfl
    rcases queried with some | none
    · obtain ⟨other, from', to', isQuery, rfl, rfl, queryCut⟩ := some
      rw [query other isQuery]
      refine Agrees.cut queryCut ((Agrees.check _).bind fun _ _ _ => ?_)
      refine Agrees.cut fragmentCut ((Agrees.check _).bind fun _ _ _ => ?_)
      exact ⟨_, rfl, stores (by rw [between, queryCut, isQuery]; rfl) cutOut⟩
    · obtain ⟨noQuery, rfl, rfl⟩ := none
      rw [noQuery] at stores ⊢
      refine Agrees.cut fragmentCut ((Agrees.check _).bind fun _ _ _ => ?_)
      exact ⟨_, rfl, stores rfl cutOut⟩
  · obtain ⟨noFragment, rfl⟩ := none
    rw [noFragment] at stores ⊢
    rcases queried with some | none
    · obtain ⟨other, from', to', isQuery, rfl, rfl, queryCut⟩ := some
      rw [query other isQuery]
      refine Agrees.cut queryCut ((Agrees.check _).bind fun _ _ _ => ?_)
      exact ⟨_, rfl, stores (by rw [between, queryCut, isQuery]; rfl) rfl⟩
    · obtain ⟨noQuery, rfl, rfl⟩ := none
      rw [noQuery] at stores ⊢
      exact ⟨_, rfl, stores rfl rfl⟩

end StoredUri

end Http11

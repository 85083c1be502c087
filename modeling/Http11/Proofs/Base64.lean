import Http11.Base64
import Http11.Proofs.Validate

/-! Text decodes to some bytes exactly when it is their encoding, white space apart. -/

namespace Http11

namespace Base64

/-- The byte of six bits. -/
def alphabetByte (value : Nat) : UInt8 := UInt8.ofNat (alphabetChar value).toNat

/-- The values of six bits that stand for some bytes. -/
def sextets : Bytes → List Nat
  | b0 :: b1 :: b2 :: rest =>
    b0.toNat / 4 :: (b0.toNat % 4 * 16 + b1.toNat / 16) :: (b1.toNat % 16 * 4 + b2.toNat / 64) ::
      b2.toNat % 64 :: sextets rest
  | [b0, b1] => [b0.toNat / 4, b0.toNat % 4 * 16 + b1.toNat / 16, b1.toNat % 16 * 4]
  | [b0] => [b0.toNat / 4, b0.toNat % 4 * 16]
  | [] => []

/-- The padding behind some bytes. -/
def padding : Bytes → Nat
  | _ :: _ :: _ :: rest => padding rest
  | [_, _] => 1
  | [_] => 2
  | [] => 0

/-- Every value of six bits has a character, which has that value and is no padding. -/
theorem value_alphabetByte : ∀ val < 64, value (alphabetByte val) = some val ∧
    alphabetByte val ≠ 0x3D ∧ (alphabetChar val).toNat < 0x80 ∧
      isIgnored (alphabetChar val) = false := by
  decide +kernel

/-- A character has a value of six bits only if it stands for it. -/
theorem value_some : ∀ byte : UInt8, ∀ val, value byte = some val →
    val < 64 ∧ alphabetByte val = byte := by
  -- There are few enough bytes to check each of them.
  have checked : ∀ byte : UInt8, (value byte).all (fun val =>
      decide (val < 64) && decide (alphabetByte val = byte)) = true :=
    forall_byte (by decide +kernel)
  intro byte val known
  have both := checked byte
  rw [known] at both
  simpa using both

/-- Bits in front of others stand for their multiple. -/
theorem bits_or {high low width size : Nat} (power : 2 ^ width = size) (small : low < size) :
    high <<< width ||| low = high * size + low := by
  rw [← power] at small ⊢
  rw [← Nat.shiftLeft_add_eq_or_of_lt small, Nat.shiftLeft_eq]

/-- Three bytes in one number. -/
theorem group_eq (b0 : Nat) {b1 b2 : Nat} (small1 : b1 < 256) (small2 : b2 < 256) :
    b0 <<< 16 ||| b1 <<< 8 ||| b2 = b0 * 65536 + b1 * 256 + b2 := by
  -- Shifted bytes do not overlap, so joining them is adding them.
  have middle : b1 <<< 8 = b1 * 256 := Nat.shiftLeft_eq b1 8
  have joined : b0 * 65536 + b1 * 256 = (b0 * 256 + b1) <<< 8 := by
    rw [Nat.shiftLeft_eq, show 2 ^ 8 = 256 from rfl]
    omega
  have front : b0 <<< 16 ||| b1 * 256 = b0 * 65536 + b1 * 256 := bits_or rfl (by omega)
  rw [middle, front, joined]
  exact (Nat.shiftLeft_add_eq_or_of_lt (show b2 < 2 ^ 8 from small2) _).symm

/-- The values of the four characters of a group. -/
theorem group_values {b0 b1 b2 : Nat} (small0 : b0 < 256) (small1 : b1 < 256)
    (small2 : b2 < 256) :
    (b0 <<< 16 ||| b1 <<< 8 ||| b2) >>> 18 &&& 0x3F = b0 / 4 ∧
    (b0 <<< 16 ||| b1 <<< 8 ||| b2) >>> 12 &&& 0x3F = b0 % 4 * 16 + b1 / 16 ∧
    (b0 <<< 16 ||| b1 <<< 8 ||| b2) >>> 6 &&& 0x3F = b1 % 16 * 4 + b2 / 64 ∧
    (b0 <<< 16 ||| b1 <<< 8 ||| b2) &&& 0x3F = b2 % 64 := by
  rw [group_eq b0 small1 small2]
  generalize joined : b0 * 65536 + b1 * 256 + b2 = number
  have low : ∀ number, number &&& 0x3F = number % 64 := fun number =>
    Nat.and_two_pow_sub_one_eq_mod number 6
  -- Shifts and masks are divisions and remainders.
  rw [low, low, low, low, Nat.shiftRight_eq_div_pow, Nat.shiftRight_eq_div_pow,
    Nat.shiftRight_eq_div_pow]
  refine ⟨?_, ?_, ?_, ?_⟩ <;> omega

/-- Bytes are written as the characters of their values, and padding. -/
theorem encode_eq (bytes : Bytes) :
    encode bytes = (sextets bytes).map alphabetChar ++ List.replicate (padding bytes) '=' := by
  -- The cases are those of the groups of three bytes.
  fun_induction encode bytes with
  | case1 b0 b1 b2 rest ih =>
    obtain ⟨first, second, third, fourth⟩ := group_values b0.toNat_lt b1.toNat_lt b2.toNat_lt
    simp only [encodeGroup, Option.getD_some, first, second, third, fourth, charOrPadding,
      Option.isSome_some, if_true, ih, sextets, padding, List.map_cons, List.cons_append,
      List.nil_append]
  | case2 b0 b1 =>
    obtain ⟨first, second, third, _⟩ := group_values b0.toNat_lt b1.toNat_lt (show 0 < 256 by omega)
    simp only [encodeGroup, Option.getD_some, Option.getD_none, UInt8.toNat_zero, first, second,
      third, charOrPadding, Option.isSome_some, Option.isSome_none, if_true, sextets, padding]
    rfl
  | case3 b0 =>
    obtain ⟨first, second, _, _⟩ := group_values b0.toNat_lt (show 0 < 256 by omega)
      (show 0 < 256 by omega)
    simp only [encodeGroup, Option.getD_none, UInt8.toNat_zero, first, second, charOrPadding,
      Option.isSome_none, sextets, padding]
    rfl
  | case4 => rfl

/-- What a character adds to the bits that are pending. -/
theorem decodeData_cons {buf bits val : Nat} {byte : UInt8} (rest : Bytes)
    (known : value byte = some val) : decodeData buf bits (byte :: rest) =
      if 8 ≤ bits + 6 then
        (decodeData ((buf * 64 + val) % 2 ^ (bits + 6 - 8)) (bits + 6 - 8) rest).map
          fun (result, left) =>
            (UInt8.ofNat ((buf * 64 + val) / 2 ^ (bits + 6 - 8)) :: result, left)
      else decodeData (buf * 64 + val) (bits + 6) rest := by
  have small := (value_some byte val known).1
  have added : buf <<< 6 ||| val = buf * 64 + val := bits_or rfl small
  simp only [decodeData, known, added, Nat.one_shiftLeft, Nat.and_two_pow_sub_one_eq_mod,
    Nat.shiftRight_eq_div_pow]

/-- Four characters are three bytes, and no bits are left over. -/
theorem decodeData_group {c0 c1 c2 c3 : UInt8} {v0 v1 v2 v3 : Nat} (rest : Bytes)
    (first : value c0 = some v0) (second : value c1 = some v1) (third : value c2 = some v2)
    (fourth : value c3 = some v3) :
    decodeData 0 0 (c0 :: c1 :: c2 :: c3 :: rest) = (decodeData 0 0 rest).map
      fun (result, left) => (UInt8.ofNat ((v0 * 64 + v1) / 16) ::
        UInt8.ofNat ((v1 % 16 * 64 + v2) / 4) :: UInt8.ofNat (v2 % 4 * 64 + v3) :: result, left) := by
  -- Each character adds six bits, and eight of them make a byte.
  rw [decodeData_cons _ first, if_neg (by omega), decodeData_cons _ second, if_pos (by omega),
    decodeData_cons _ third, if_pos (by omega), decodeData_cons _ fourth, if_pos (by omega)]
  have inner : (v0 * 64 + v1) % 16 = v1 % 16 := by omega
  have last : (v1 % 16 * 64 + v2) % 4 = v2 % 4 := by omega
  simp only [Nat.zero_mul, Nat.zero_add, show 6 + 6 - 8 = 4 from rfl, show 4 + 6 - 8 = 2 from rfl,
    show 2 + 6 - 8 = 0 from rfl, show 2 ^ 4 = 16 from rfl, show 2 ^ 2 = 4 from rfl,
    show 2 ^ 0 = 1 from rfl, Nat.mod_one, Nat.div_one, inner, last]
  cases decodeData 0 0 rest <;> rfl

/-- Two characters are a byte, and four bits are left over. -/
theorem decodeData_two {c0 c1 : UInt8} {v0 v1 : Nat} (first : value c0 = some v0)
    (second : value c1 = some v1) :
    decodeData 0 0 [c0, c1] = .ok ([UInt8.ofNat ((v0 * 64 + v1) / 16)], v1 % 16) := by
  rw [decodeData_cons _ first, if_neg (by omega), decodeData_cons _ second, if_pos (by omega)]
  have inner : (v0 * 64 + v1) % 16 = v1 % 16 := by omega
  simp only [Nat.zero_mul, Nat.zero_add, show 6 + 6 - 8 = 4 from rfl, show 2 ^ 4 = 16 from rfl,
    inner]
  rfl

/-- Three characters are two bytes, and two bits are left over. -/
theorem decodeData_three {c0 c1 c2 : UInt8} {v0 v1 v2 : Nat} (first : value c0 = some v0)
    (second : value c1 = some v1) (third : value c2 = some v2) :
    decodeData 0 0 [c0, c1, c2] = .ok ([UInt8.ofNat ((v0 * 64 + v1) / 16),
      UInt8.ofNat ((v1 % 16 * 64 + v2) / 4)], v2 % 4) := by
  -- Each character adds six bits, and eight of them make a byte.
  rw [decodeData_cons _ first, if_neg (by omega), decodeData_cons _ second, if_pos (by omega),
    decodeData_cons _ third, if_pos (by omega)]
  have inner : (v0 * 64 + v1) % 16 = v1 % 16 := by omega
  have last : (v1 % 16 * 64 + v2) % 4 = v2 % 4 := by omega
  simp only [Nat.zero_mul, Nat.zero_add, show 6 + 6 - 8 = 4 from rfl, show 4 + 6 - 8 = 2 from rfl,
    show 2 ^ 4 = 16 from rfl, show 2 ^ 2 = 4 from rfl, inner, last]
  rfl

/-- A number that is that of a byte. -/
theorem ofNat_of_eq {number : Nat} (byte : UInt8) (same : number = byte.toNat) :
    UInt8.ofNat number = byte := by
  rw [same, UInt8.ofNat_toNat]

/-- The characters of some bytes are decoded to them, and nothing is left over. -/
theorem decodeData_sextets (bytes : Bytes) :
    decodeData 0 0 ((sextets bytes).map alphabetByte) = .ok (bytes, 0) := by
  have known : ∀ val < 64, value (alphabetByte val) = some val := fun val small =>
    (value_alphabetByte val small).1
  -- The cases are those of the groups of three bytes.
  fun_induction sextets bytes with
  | case1 b0 b1 b2 rest ih =>
    have small0 := b0.toNat_lt
    have small1 := b1.toNat_lt
    have small2 := b2.toNat_lt
    simp only [List.map_cons]
    rw [decodeData_group _ (known _ (by omega)) (known _ (by omega)) (known _ (by omega))
      (known _ (by omega)), ih]
    simp only [Except.map]
    rw [ofNat_of_eq b0 (by omega), ofNat_of_eq b1 (by omega),
      ofNat_of_eq b2 (by omega)]
  | case2 b0 b1 =>
    have small0 := b0.toNat_lt
    have small1 := b1.toNat_lt
    simp only [List.map_cons, List.map_nil]
    rw [decodeData_three (known _ (by omega)) (known _ (by omega)) (known _ (by omega)),
      ofNat_of_eq b0 (by omega), ofNat_of_eq b1 (by omega),
      show b1.toNat % 16 * 4 % 4 = 0 by omega]
  | case3 b0 =>
    have small0 := b0.toNat_lt
    simp only [List.map_cons, List.map_nil]
    rw [decodeData_two (known _ (by omega)) (known _ (by omega)),
      ofNat_of_eq b0 (by omega), show b0.toNat % 4 * 16 % 16 = 0 by omega]
  | case4 => rfl

/-- Only characters of the alphabet are decoded. -/
theorem value_of_decodeData {buf bits : Nat} {byte : UInt8} {rest : Bytes} {result : Bytes × Nat}
    (decoded : decodeData buf bits (byte :: rest) = .ok result) :
    ∃ val, value byte = some val ∧ val < 64 ∧ alphabetByte val = byte ∧
      ∃ buf bits later, decodeData buf bits rest = .ok later := by
  cases known : value byte with
  | none => simp [decodeData, known] at decoded
  | some val =>
    refine ⟨val, rfl, (value_some byte val known).1, (value_some byte val known).2, ?_⟩
    rw [decodeData_cons rest known] at decoded
    -- Whether a byte is complete here or not, the rest is decoded.
    split at decoded
    · cases later : decodeData ((buf * 64 + val) % 2 ^ (bits + 6 - 8)) (bits + 6 - 8) rest with
      | error error =>
        rw [later] at decoded
        cases decoded
      | ok found => exact ⟨_, _, found, later⟩
    · exact ⟨_, _, result, decoded⟩

/-- What decodes without bits left over is the characters of the bytes. -/
theorem sextets_of_decodeData : ∀ (data bytes : Bytes), decodeData 0 0 data = .ok (bytes, 0) →
    data.length % 4 ≠ 1 → data = (sextets bytes).map alphabetByte
  | [], bytes, decoded, _ => by
    cases decoded
    rfl
  | [_], _, _, length => absurd rfl length
  | [c0, c1], bytes, decoded, _ => by
    obtain ⟨v0, first, small0, rfl, _, _, _, behind⟩ := value_of_decodeData decoded
    obtain ⟨v1, second, small1, rfl, _⟩ := value_of_decodeData behind
    rw [decodeData_two first second] at decoded
    simp only [Except.ok.injEq, Prod.mk.injEq] at decoded
    obtain ⟨rfl, zero⟩ := decoded
    have byte : (UInt8.ofNat ((v0 * 64 + v1) / 16)).toNat = (v0 * 64 + v1) / 16 :=
      Utf8.toNat_ofNat_small _ (by omega)
    simp only [sextets, byte, List.map_cons, List.map_nil]
    rw [show (v0 * 64 + v1) / 16 / 4 = v0 by omega,
      show (v0 * 64 + v1) / 16 % 4 * 16 = v1 by omega]
  | [c0, c1, c2], bytes, decoded, _ => by
    obtain ⟨v0, first, small0, rfl, _, _, _, behind⟩ := value_of_decodeData decoded
    obtain ⟨v1, second, small1, rfl, _, _, _, last⟩ := value_of_decodeData behind
    obtain ⟨v2, third, small2, rfl, _⟩ := value_of_decodeData last
    rw [decodeData_three first second third] at decoded
    simp only [Except.ok.injEq, Prod.mk.injEq] at decoded
    obtain ⟨rfl, zero⟩ := decoded
    have byte0 : (UInt8.ofNat ((v0 * 64 + v1) / 16)).toNat = (v0 * 64 + v1) / 16 :=
      Utf8.toNat_ofNat_small _ (by omega)
    have byte1 : (UInt8.ofNat ((v1 % 16 * 64 + v2) / 4)).toNat = (v1 % 16 * 64 + v2) / 4 :=
      Utf8.toNat_ofNat_small _ (by omega)
    simp only [sextets, byte0, byte1, List.map_cons, List.map_nil]
    rw [show (v0 * 64 + v1) / 16 / 4 = v0 by omega,
      show (v0 * 64 + v1) / 16 % 4 * 16 + (v1 % 16 * 64 + v2) / 4 / 16 = v1 by omega,
      show (v1 % 16 * 64 + v2) / 4 % 16 * 4 = v2 by omega]
  | c0 :: c1 :: c2 :: c3 :: rest, bytes, decoded, length => by
    obtain ⟨v0, first, small0, rfl, _, _, _, behind⟩ := value_of_decodeData decoded
    obtain ⟨v1, second, small1, rfl, _, _, _, middle⟩ := value_of_decodeData behind
    obtain ⟨v2, third, small2, rfl, _, _, _, last⟩ := value_of_decodeData middle
    obtain ⟨v3, fourth, small3, rfl, _⟩ := value_of_decodeData last
    rw [decodeData_group rest first second third fourth] at decoded
    cases later : decodeData 0 0 rest with
    | error error =>
      rw [later] at decoded
      cases decoded
    | ok found =>
      obtain ⟨left, bits⟩ := found
      rw [later] at decoded
      simp only [Except.map, Except.ok.injEq, Prod.mk.injEq] at decoded
      obtain ⟨rfl, rfl⟩ := decoded
      -- The groups behind this one are decoded from the same state.
      have ih := sextets_of_decodeData rest left later (by simp at length; omega)
      have byte0 : (UInt8.ofNat ((v0 * 64 + v1) / 16)).toNat = (v0 * 64 + v1) / 16 :=
        Utf8.toNat_ofNat_small _ (by omega)
      have byte1 : (UInt8.ofNat ((v1 % 16 * 64 + v2) / 4)).toNat = (v1 % 16 * 64 + v2) / 4 :=
        Utf8.toNat_ofNat_small _ (by omega)
      have byte2 : (UInt8.ofNat (v2 % 4 * 64 + v3)).toNat = v2 % 4 * 64 + v3 :=
        Utf8.toNat_ofNat_small _ (by omega)
      simp only [sextets, byte0, byte1, byte2, List.map_cons, ← ih]
      rw [show (v0 * 64 + v1) / 16 / 4 = v0 by omega,
        show (v0 * 64 + v1) / 16 % 4 * 16 + (v1 % 16 * 64 + v2) / 4 / 16 = v1 by omega,
        show (v1 % 16 * 64 + v2) / 4 % 16 * 4 + (v2 % 4 * 64 + v3) / 64 = v2 by omega,
        show (v2 % 4 * 64 + v3) % 64 = v3 by omega]

/-- Characters and padding are whole groups of four. -/
theorem sextets_length (bytes : Bytes) :
    (sextets bytes).length % 4 = (4 - padding bytes) % 4 ∧ padding bytes ≤ 2 := by
  -- Three bytes make a whole group, and two or one leave some padding.
  fun_induction sextets bytes with
  | case1 b0 b1 b2 rest ih =>
    simp only [List.length_cons, padding]
    omega
  | case2 b0 b1 => exact ⟨rfl, Nat.le_succ 1⟩
  | case3 b0 => exact ⟨rfl, Nat.le_refl 2⟩
  | case4 => exact ⟨rfl, Nat.zero_le 2⟩

/-- The values of some bytes are those of six bits. -/
theorem sextets_lt (bytes : Bytes) : ∀ val ∈ sextets bytes, val < 64 := by
  fun_induction sextets bytes with
  -- Every value is a part of bytes below 256.
  | case1 b0 b1 b2 rest ih =>
    have small0 := b0.toNat_lt
    have small1 := b1.toNat_lt
    have small2 := b2.toNat_lt
    simp only [List.forall_mem_cons]
    exact ⟨by omega, by omega, by omega, by omega, ih⟩
  | case2 b0 b1 =>
    have small0 := b0.toNat_lt
    have small1 := b1.toNat_lt
    simp only [List.forall_mem_cons]
    exact ⟨by omega, by omega, by omega, by simp⟩
  | case3 b0 =>
    have small0 := b0.toNat_lt
    simp only [List.forall_mem_cons]
    exact ⟨by omega, by omega, by simp⟩
  | case4 => simp

/-- The padding of some bytes suits their characters, and no other does. -/
theorem isValidPadding_iff (bytes : Bytes) (count : Nat) :
    isValidPadding count ((sextets bytes).length % 4) = true ↔ count = padding bytes := by
  obtain ⟨length, few⟩ := sextets_length bytes
  rw [length]
  match padding bytes, few with
  | 0, _ | 1, _ | 2, _ => match count with
    | 0 | 1 | 2 => decide
    | count + 3 => simp [isValidPadding]

/-- Text ends in as much padding as is counted. -/
theorem padding_split (text : Bytes) :
    text = text.take (text.length - (text.reverse.takeWhile fun byte => byte == 0x3D).length) ++
      List.replicate (text.reverse.takeWhile fun byte => byte == 0x3D).length 0x3D := by
  have taken := List.prefix_iff_eq_take.mp
    (List.takeWhile_prefix (l := text.reverse) fun byte : UInt8 => byte == 0x3D)
  have same : text.reverse.takeWhile (fun byte => byte == 0x3D) =
      List.replicate (text.reverse.takeWhile fun byte => byte == 0x3D).length 0x3D :=
    List.eq_replicate_of_mem fun byte inside => by simpa using List.mem_takeWhile_imp inside
  rw [List.take_reverse] at taken
  -- The padding at the end is what the reversed text starts with.
  have behind : text.drop (text.length -
      (text.reverse.takeWhile fun byte => byte == 0x3D).length) =
      List.replicate (text.reverse.takeWhile fun byte => byte == 0x3D).length 0x3D := by
    rw [← List.reverse_inj, List.reverse_replicate, ← taken]
    exact same
  rw [← behind, List.take_append_drop]

/-- Text without white space decodes to some bytes exactly when it is their encoding. -/
theorem decodeNormalized_iff (text bytes : Bytes) : decodeNormalized text = .ok bytes ↔
    text = (sextets bytes).map alphabetByte ++ List.replicate (padding bytes) 0x3D := by
  constructor
  · intro decoded
    unfold decodeNormalized at decoded
    split at decoded
    · rename_i empty
      cases decoded
      rw [List.isEmpty_iff.mp empty]
      rfl
    dsimp only at decoded
    split at decoded
    · cases decoded
    split at decoded
    · cases decoded
    split at decoded
    · cases decoded
    rename_i valid
    split at decoded
    · cases decoded
    rename_i result left read
    split at decoded
    · cases decoded
    rename_i none
    cases decoded
    rw [ne_eq, not_not] at none
    subst none
    -- Valid padding leaves no single character in the last group.
    simp only [Bool.not_eq_true', Bool.not_eq_false] at valid
    have whole := sextets_of_decodeData _ bytes read (fun one => by
      rw [one] at valid
      unfold isValidPadding at valid
      split at valid <;> simp at valid)
    rw [whole, List.length_map] at valid
    have count := (isValidPadding_iff bytes _).mp valid
    have split := padding_split text
    rwa [whole, count] at split
  · rintro rfl
    obtain ⟨length, few⟩ := sextets_length bytes
    have valid := (isValidPadding_iff bytes (padding bytes)).mpr rfl
    have known := decodeData_sextets bytes
    -- None of the characters is padding, so that exactly the padding is counted.
    have plain : ((sextets bytes).map alphabetByte).reverse.takeWhile
        (fun byte => byte == 0x3D) = [] := by
      rw [List.takeWhile_eq_nil_iff]
      intro present
      have inside := List.getElem_mem present
      rw [List.mem_reverse, List.mem_map] at inside
      obtain ⟨val, member, same⟩ := inside
      simpa [← same] using (value_alphabetByte val (sextets_lt bytes val member)).2.1
    have counted : (((sextets bytes).map alphabetByte ++
        List.replicate (padding bytes) 0x3D).reverse.takeWhile
          fun byte => byte == 0x3D).length = padding bytes := by
      rw [List.reverse_append, List.reverse_replicate, List.takeWhile_append_of_pos (by simp),
        plain, List.append_nil, List.length_replicate]
    have front : ((sextets bytes).map alphabetByte ++ List.replicate (padding bytes) 0x3D).take
        (((sextets bytes).map alphabetByte ++ List.replicate (padding bytes) 0x3D).length -
          padding bytes) = (sextets bytes).map alphabetByte := by
      rw [List.length_append, List.length_replicate, Nat.add_sub_cancel, List.take_left]
    have whole : ((sextets bytes).map alphabetByte ++
        List.replicate (padding bytes) 0x3D).length % 4 = 0 := by
      rw [List.length_append, List.length_replicate, List.length_map]
      omega
    unfold decodeNormalized
    split
    · -- Only no bytes at all have an empty encoding.
      rename_i empty
      rw [List.isEmpty_iff, List.append_eq_nil_iff, List.map_eq_nil_iff] at empty
      rw [empty.1] at known
      cases known
      rfl
    · dsimp only
      rw [counted, front, if_neg (by omega), if_neg (by omega), List.length_map, valid, known]
      rfl

/-- Text without white space has the bytes of its characters, which all are ASCII. -/
theorem normalized_iff (input : Str) (bytes : Bytes) : normalized input = .ok bytes ↔
    (∀ char ∈ input.filter isKept, char.toNat < 0x80) ∧
      bytes = (input.filter isKept).map fun char => UInt8.ofNat char.toNat := by
  induction input generalizing bytes with
  | nil => simp [normalized, eq_comm]
  | cons char rest ih =>
    -- White space is skipped, and a wide character is refused.
    by_cases ignored : isIgnored char = true
    · simp [normalized, ignored, isKept, ih]
    · have kept : isKept char = true := by simpa [isKept] using ignored
      rw [normalized, if_neg ignored, List.filter_cons_of_pos kept]
      by_cases wide : 0x80 ≤ char.toNat
      · rw [if_pos wide]
        refine iff_of_false (by simp) fun both => ?_
        have ascii := both.1 char List.mem_cons_self
        omega
      · rw [if_neg wide]
        cases read : normalized rest with
        | error error =>
          refine iff_of_false (by simp [Except.map]) fun both => ?_
          have none := (ih _).mpr ⟨fun other inside => both.1 other (List.mem_cons_of_mem _ inside),
            rfl⟩
          rw [read] at none
          cases none
        | ok found =>
          obtain ⟨ascii, rfl⟩ := (ih found).mp read
          simp only [Except.map, Except.ok.injEq, List.map_cons, List.forall_mem_cons]
          exact ⟨fun same => ⟨⟨by omega, ascii⟩, same.symm⟩, fun both => both.2.symm⟩

/-- What is written is ASCII, and none of it is ignored. -/
theorem encode_kept (bytes : Bytes) :
    ∀ char ∈ encode bytes, char.toNat < 0x80 ∧ isKept char = true := by
  intro char inside
  rw [encode_eq, List.mem_append, List.mem_map] at inside
  -- A character of the alphabet, or the padding.
  rcases inside with ⟨val, member, rfl⟩ | pad
  · have checked := value_alphabetByte val (sextets_lt bytes val member)
    exact ⟨checked.2.2.1, by simp [isKept, checked.2.2.2]⟩
  · rw [List.eq_of_mem_replicate pad]
    decide

/-- ASCII characters are told apart by their bytes. -/
theorem map_byte_injective {text other : Str} (ascii : ∀ char ∈ text, char.toNat < 0x80)
    (asciiOther : ∀ char ∈ other, char.toNat < 0x80)
    (same : text.map (fun char => UInt8.ofNat char.toNat) =
      other.map fun char => UInt8.ofNat char.toNat) : text = other := by
  -- Each byte has its own ASCII character.
  have back : ∀ {text : Str}, (∀ char ∈ text, char.toNat < 0x80) →
      (text.map fun char => UInt8.ofNat char.toNat).map (fun byte => Char.ofNat byte.toNat) =
        text := by
    intro text ascii
    rw [List.map_map]
    refine (List.map_congr_left fun char inside => ?_).trans (List.map_id text)
    have small := ascii char inside
    simp only [Function.comp, id, Utf8.toNat_ofNat_small char.toNat (by omega), Char.ofNat_toNat]
  rw [← back ascii, same, back asciiOther]

/-- Text decodes to some bytes exactly when it is their encoding, white space apart. -/
theorem decode_iff (input : Str) (bytes : Bytes) :
    decode input = .ok bytes ↔ input.filter isKept = encode bytes := by
  have written : (encode bytes).map (fun char => UInt8.ofNat char.toNat) =
      (sextets bytes).map alphabetByte ++ List.replicate (padding bytes) 0x3D := by
    rw [encode_eq, List.map_append, List.map_map, List.map_replicate]
    rfl
  have ascii : ∀ char ∈ encode bytes, char.toNat < 0x80 := fun char inside =>
    (encode_kept bytes char inside).1
  constructor
  · intro decoded
    unfold decode at decoded
    -- The text is normalized, decoded and compared with what it encodes to.
    cases read : normalized input with
    | error error =>
      rw [read] at decoded
      cases decoded
    | ok text =>
      rw [read] at decoded
      obtain ⟨plain, rfl⟩ := (normalized_iff input text).mp read
      have same := (decodeNormalized_iff _ bytes).mp decoded
      rw [← written] at same
      exact map_byte_injective plain ascii same
  · intro same
    -- What is encoded has nothing to skip, and decodes to its bytes.
    have read := (normalized_iff input _).mpr ⟨by rw [same]; exact ascii, rfl⟩
    rw [same, written] at read
    unfold decode
    rw [read]
    exact (decodeNormalized_iff _ bytes).mpr rfl

/-- What is written is read back. -/
theorem decode_encode (bytes : Bytes) : decode (encode bytes) = .ok bytes := by
  rw [decode_iff]
  exact List.filter_eq_self.mpr fun char inside => (encode_kept bytes char inside).2

/-- One sign pads five bytes. -/
example : encode (Utf8.encode "light".toList) = "bGlnaHQ=".toList := by decide +kernel

end Base64

end Http11

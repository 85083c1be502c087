import Http11.Cookie
import Http11.Lib.Separating
import Http11.Proofs.Date
import Http11.Proofs.Positions

/-! Cookies are the same when they are parsed again. -/

namespace Http11

/-- A text of bytes of some ASCII kind has the characters of that kind only. -/
theorem ascii_of_all {kind : UInt8 → Bool} (narrow : IsNarrow kind false) {text : Str}
    (all : (Utf8.encode text).all kind = true) :
    ∀ char ∈ text, char.toNat < 0x80 ∧ kind (UInt8.ofNat char.toNat) = true := by
  rw [encode_all, List.all_eq_true] at all
  intro char inside
  have kept := all char inside
  -- Other characters start with bytes that the kind does not have.
  by_cases ascii : char.toNat < 0x80
  · rw [ofKind_ascii kind ascii] at kept
    exact ⟨ascii, kept⟩
  · rw [narrow.ofKind (by omega)] at kept
    cases kept

/-- The value of a cookie has neither white space nor delimiters in it. -/
theorem cookieValue_plain {value : Str} (valid : isValidCookieValue value = true) :
    ∀ char ∈ value, isWhitespace char = false ∧ char ≠ '"' ∧ char ≠ ';' := by
  have narrow : IsNarrow isCookieOctet false := forall_byte (by decide +kernel)
  intro char inside
  obtain ⟨ascii, kept⟩ := ascii_of_all narrow valid char inside
  revert kept
  exact forall_ascii (motive := fun char => isCookieOctet (UInt8.ofNat char.toNat) = true →
    isWhitespace char = false ∧ char ≠ '"' ∧ char ≠ ';') (by decide) ascii

namespace Cookie

/-- The name of a cookie is a token without equals signs and semicolons. -/
theorem name_plain (cookie : Cookie) : cookie.name ≠ [] ∧
    Trimming.IsTrimmed isWhitespace cookie.name ∧ '=' ∉ cookie.name ∧ ';' ∉ cookie.name := by
  have token : isToken cookie.name = true := cookie.validName
  obtain ⟨filled, trimmed⟩ := isToken_trimmed token
  exact ⟨filled, trimmed, not_mem_token token (by decide),
    not_mem_token token (by decide)⟩

/-- The value of a cookie has no white space around it, no quote in front and no semicolons. -/
theorem value_plain (cookie : Cookie) : Trimming.IsTrimmed isWhitespace cookie.value ∧
    cookie.value.head? ≠ some '"' ∧ ';' ∉ cookie.value := by
  have plain := cookieValue_plain cookie.validValue
  refine ⟨Trimming.isTrimmed_of_none fun char inside => (plain char inside).1, fun first => ?_,
    fun inside => (plain ';' inside).2.2 rfl⟩
  exact (plain '"' (List.mem_of_head? first)).2.1 rfl

/-- A cookie is written without white space around it and without semicolons. -/
theorem display_plain (cookie : Cookie) : cookie.display ≠ [] ∧
    Trimming.IsTrimmed isWhitespace cookie.display ∧ ';' ∉ cookie.display := by
  obtain ⟨filled, name, _, semicolon⟩ := cookie.name_plain
  obtain ⟨value, _, plain⟩ := cookie.value_plain
  refine ⟨by simp [display], ?_, by simp [display, semicolon, plain]⟩
  by_cases empty : cookie.value = []
  · -- The equals sign is the last character.
    have sign : Trimming.IsTrimmed isWhitespace ['='] := Trimming.isTrimmed_of_none (by decide +kernel)
    have whole := Trimming.isTrimmed_append [] filled (List.cons_ne_nil _ _) name sign
    rw [display, empty]
    exact whole
  · exact name.behind (by decide) empty value

/-- A cookie is read from its pair. -/
theorem parseCookiePair_display (cookie : Cookie) :
    parseCookiePair cookie.display = .ok cookie := by
  -- Neither the name nor the value has anything to trim, to unquote or to split at.
  obtain ⟨filled, trimmed, sign, _⟩ := cookie.name_plain
  obtain ⟨dark, unquoted, _⟩ := cookie.value_plain
  have name : trim cookie.name = cookie.name := trimmed.trim_eq
  have value : trim cookie.value = cookie.value := dark.trim_eq
  have same : unquoteCookieValue cookie.value = cookie.value := if_neg fun quotes => unquoted quotes.1
  rw [parseCookiePair, display, splitOnce_append sign]
  dsimp only
  simp only [name, value, same]
  rw [if_neg (by simpa using filled), dif_pos cookie.validName, dif_pos cookie.validValue]

/-- Cookies that are joined to a header are parsed from it, as long as there are any. -/
-- Each cookie is written without a semicolon and with nothing to trim.
theorem cookies_survive {cookies : List Cookie} (present : cookies ≠ []) :
    parse ("; ".toList.intercalate (cookies.map display)) = .ok cookies := by
  have each : ∀ text ∈ cookies.map display, text ≠ [] ∧ Trimming.IsTrimmed isOws text := by
    refine List.forall_mem_map.mpr fun cookie inside => ?_
    obtain ⟨filled, trimmed, _⟩ := cookie.display_plain
    exact ⟨filled, trimmed.mono fun _ => isWhitespace_of_ows⟩
  obtain ⟨trimmed, filled⟩ := Trimming.isTrimmed_intercalate [';', ' '] each
  -- The header splits into the cookies, the second and later ones behind a space.
  have some : cookies.map display ≠ [] := by simpa using present
  have same : trimOws ([';', ' '].intercalate (cookies.map display)) = _ := trimmed.trim_eq
  have split : ([';', ' '].intercalate (cookies.map display)).splitOn ';' =
      Cutting.padded ' ' (cookies.map display) :=
    -- Trimming takes that space off again.
    Separating.splitOn_padded (List.forall_mem_map.mpr fun cookie _ => cookie.display_plain.2.2) some
      (by decide)
  have read : parseElements trimOws parseCookiePair (Cutting.padded ' ' (cookies.map display)) =
      .ok cookies := by
    refine (parseElements_padded (fun text inside => (each text inside).1) fun text inside =>
      ⟨(each text inside).2.trim_eq, (each text inside).2.trim_cons (by decide)⟩).mpr ?_
    exact List.forall₂_map_left_iff.mpr (List.forall₂_same.mpr fun cookie _ =>
      cookie.parseCookiePair_display)
  change parse ([';', ' '].intercalate _) = _
  rw [parse, same, if_neg (by simpa using filled some), split, read]
  dsimp only
  rw [if_neg (by simpa using present)]

end Cookie

end Http11

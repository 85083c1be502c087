import Http11.Proofs.Decoder.Changes
import Http11.Trailing

/-! Lines that are split off a buffer, and the first line of a message. -/

namespace Http11

/-- Nothing is a line, the one that ends a section. -/
theorem IsLine.nil : IsLine [] := rfl

/-- A line ends at the line end behind it. -/
theorem splitLine_plain {line : Bytes} (plain : IsLine line) (rest : Bytes) :
    splitLine (line ++ crlf ++ rest) = some (line, rest) := by
  have found : findLine (line ++ crlf ++ rest) = some line.length := by
    unfold IsLine at plain
    fun_induction findLine line with
    | case1 => cases plain
    | case2 => rfl
    | case3 byte line notEnd ih =>
      have later := ih (by simpa using plain)
      rw [List.cons_append, List.cons_append, findLine, later]
      · rfl
      · -- The byte in front starts no line end, neither in the line nor with the one behind it.
        intro others first second
        cases line with
        | nil => simp [crlf] at second
        | cons next line =>
          simp only [List.cons_append, List.cons.injEq] at second
          exact notEnd line first (by rw [second.1])
  rw [splitLine, found]
  simp [crlf]

/-- What is split off a buffer is a line, and its end follows. -/
theorem splitLine_some {buf line rest : Bytes} (split : splitLine buf = some (line, rest)) :
    IsLine line ∧ buf = line ++ crlf ++ rest := by
  simp only [splitLine, Option.map_eq_some_iff, Prod.mk.injEq] at split
  obtain ⟨pos, found, rfl, rfl⟩ := split
  unfold IsLine
  fun_induction findLine buf generalizing pos with
  | case1 rest =>
    cases found
    exact ⟨rfl, rfl⟩
  | case2 => cases found
  | case3 byte buf notEnd ih =>
    simp only [Option.map_eq_some_iff] at found
    obtain ⟨before, foundBefore, rfl⟩ := found
    obtain ⟨plain, same⟩ := ih before foundBefore
    refine ⟨?_, by simpa using same⟩
    rw [List.take_succ_cons, findLine, plain]
    · rfl
    · -- What starts no line end in the buffer starts none in a part of it.
      intro others first second
      cases buf with
      | nil => simp at second
      | cons next buf =>
        cases before with
        | zero => simp at second
        | succ before =>
          rw [List.take_succ_cons, List.cons.injEq] at second
          exact notEnd buf first (by rw [second.1])

/-- A start line that fills the buffer is accepted when its text is, which is remembered. -/
theorem Core.decodeHeaders_startLine {Head Context : Type} (side : Side Head Context)
    (core : Core Context) {line : Bytes} (plain : IsLine line) (phase : core.phase = .startLine)
    (buf : core.buf = line ++ crlf) :
    ((core.decodeHeaders side).1 = .ok none ↔
      ∃ text, lineText line = .ok text ∧ side.checkStartLine text = .ok ()) ∧
    ((core.decodeHeaders side).1 = .ok none → ∃ text, lineText line = .ok text ∧
      (core.decodeHeaders side).2.phase = .headers ∧
      (core.decodeHeaders side).2.startLine = some text) := by
  have split : splitLine core.buf = some (line, []) := by
    rw [buf]
    simpa using splitLine_plain plain []
  cases read : core.headLine side line [] with
  | mk result next =>
    cases result with
    | error error =>
      have pass : (decodeHeadersLoop side).body core = .inr (.error error, next) := by
        simp [decodeHeadersLoop, decodeHeadersPass, phase, split, read]
      have ran : core.decodeHeaders side = (.error error, next) :=
        (decodeHeadersLoop side).run_of_return pass
      rw [ran]
      refine ⟨⟨fun same => (by cases same), ?_⟩, fun same => (by cases same)⟩
      rintro ⟨text, decoded, checked⟩
      simp [headLine, phase, readStartLine, decoded, checked, Except.map] at read
    | ok decoded =>
      rcases headLine_ok read with ⟨_, rfl, started⟩ | ⟨later, _⟩ | ⟨later, _⟩
      · obtain ⟨text, decoded, checked, rfl⟩ := readStartLine_ok started
        -- The line is the only one in the buffer, so that the second pass waits for the next one.
        have pass : (decodeHeadersLoop side).body core = .inl
            { core with buf := [], startLine := some text, phase := .headers } := by
          simp [decodeHeadersLoop, decodeHeadersPass, phase, split, read]
        have waits : (decodeHeadersLoop side).body
            { core with buf := [], startLine := some text, phase := .headers } =
            .inr (.ok none, { core with buf := [], startLine := some text, phase := .headers }) := by
          simp [decodeHeadersLoop, decodeHeadersPass, splitLine, findLine]
        have ran : core.decodeHeaders side = (.ok none,
            { core with buf := [], startLine := some text, phase := .headers }) := by
          rw [decodeHeaders, (decodeHeadersLoop side).run_of_continue pass,
            (decodeHeadersLoop side).run_of_return waits]
        rw [ran]
        exact ⟨⟨fun _ => ⟨text, decoded, checked⟩, fun _ => rfl⟩,
          fun _ => ⟨text, decoded, rfl, rfl⟩⟩
      · exact absurd phase later
      · exact absurd phase later

end Http11

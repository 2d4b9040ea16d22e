import ChatCodec.Proofs.Lexer.Order
import ChatCodec.Proofs.Lexer.Scans
import ChatCodec.Proofs.Text.Meaning

/-!
# A lexer stays inside its payload

The offsets that a lexer keeps lie in order inside the payload, and what it has captured for the
token read last is a stretch of the payload between them, or else the meaning of a string with
escapes, which has bytes of its own (`Lexer.IsInside`).  One scan preserves this
(`Lexer.IsInside.scan`), whichever token it reads and whichever fault stops it.

A scan leaves only white space between where the lexer stood and where the token begins, and every
token but a final one takes up a byte (`Lexer.IsInside.passes_blanks`, `Lexer.isBehind_scan`).
The end and a fault are for good: to scan again changes nothing (`Lexer.scan_scan_of_final`).
-/

namespace ChatCodec

set_option autoImplicit false

open TextScan (IsText)

/-! ## Strings without escapes -/

/-- A text is the units in front of its closing quote. -/
theorem TextScan.IsText.exists_body {text : Bytes} {units : List TextUnit}
    (isText : IsText text units) :
    ∃ body, text = body ++ [Ascii.quote] ∧ HasUnits body units := by
  have whole := TextScan.isText_iff.mp isText
  obtain ⟨body, rest, same, length, isBody⟩ := TextScan.exists_isStringBody text whole
  have nothing : rest = [] := by
    rw [same, List.length_append, List.length_cons] at length
    exact List.eq_nil_of_length_eq_zero (by omega)
  subst nothing
  obtain ⟨units', hasUnits⟩ := (isStringBody_iff.mp isBody).exists_units
  have again := TextScan.isText_iff.mp hasUnits.closed
  rw [← same, whole, TextScan.mk.injEq] at again
  rw [← again.1] at hasUnits
  exact ⟨body, same, hasUnits⟩

/-- Without a backslash, a sequence of units is a sequence of raw bytes. -/
theorem IsUnits.isRaw {body : Bytes} (areUnits : IsUnits body) (plain : Ascii.backslash ∉ body) :
    ∀ byte ∈ body, Ascii.IsRaw byte := by
  obtain ⟨pieces, areUnits, rfl⟩ := areUnits
  intro byte isIn
  obtain ⟨piece, isPiece, inPiece⟩ := List.mem_flatten.mp isIn
  have noEscape : Ascii.backslash ∉ piece := by
    intro escaped
    exact plain (List.mem_flatten.mpr ⟨piece, isPiece, escaped⟩)
  cases areUnits piece isPiece with
  | raw isRaw =>
      rw [List.mem_singleton.mp inPiece]
      exact isRaw
  | letter known => exact absurd List.mem_cons_self noEscape
  | code isCode =>
      cases isCode
      exact absurd List.mem_cons_self noEscape

/-- Units without escapes spell what they are. -/
theorem HasUnits.spell_eq_self {body : Bytes} {units : List TextUnit}
    (hasUnits : HasUnits body units) (plain : Ascii.backslash ∉ body) :
    TextUnit.spell units = body := by
  have raw := HasUnits.rawBytes (hasUnits.isUnits.isRaw plain)
  have same := (hasUnits.scan []).symm.trans (raw.scan [])
  rw [TextScan.mk.injEq] at same
  have spelled := TextUnit.spell_map_byte_append body []
  rw [List.append_nil, ← same.1] at spelled
  exact spelled.trans (List.append_nil body)

/-- No word is read as an error. -/
theorem Scanned.Reads.ne_error {token : Token} {word output rest : Bytes}
    (reads : Scanned.Reads token word output rest) : token ≠ .error := by
  cases reads with
  | mark known =>
      rintro rfl
      cases (kind_of_punctuation? known).2
  | number => split <;> decide
  | eof | text | bool | null => decide

namespace Lexer

/-! ## Where captured bytes come from -/

/-- What is captured for the token read last is a stretch of the payload that lies within the
token, or the meaning of a string with escapes. -/
inductive Captures (payload : Bytes) (lexer : Lexer) : Prop where
  | stretch (first last : Nat) (start_le : lexer.start ≤ first) (first_le : first ≤ last)
      (last_le : last ≤ lexer.position) (output_eq : lexer.output = payload.extract first last)
  | unescaped {body : Bytes} {units : List TextUnit}
      (literal : payload.extract lexer.start lexer.position =
        Ascii.quote :: (body ++ [Ascii.quote]))
      (escaped : Ascii.backslash ∈ body) (hasUnits : HasUnits body units)
      (output_eq : lexer.output = TextUnit.spell units)

section

variable {payload : Bytes} {lexer : Lexer}

/-- The bytes of the whole token. -/
theorem Captures.of_whole {word rest : Bytes}
    (text : payload.drop lexer.start = word ++ rest)
    (ends : lexer.position = lexer.start + word.length) (whole : lexer.output = word) :
    lexer.Captures payload := by
  refine .stretch lexer.start lexer.position (Nat.le_refl _) (by omega) (Nat.le_refl _) ?_
  rw [List.extract_eq_take_drop, text, ends, Nat.add_sub_cancel_left, List.take_left, whole]

/-- Nothing is a stretch of nothing. -/
theorem Captures.of_nothing (ordered : lexer.start ≤ lexer.position) (nothing : lexer.output = []) :
    lexer.Captures payload := by
  refine .stretch lexer.start lexer.start (Nat.le_refl _) (Nat.le_refl _) ordered ?_
  rw [List.extract_eq_take_drop, Nat.sub_self, List.take_zero, nothing]

/-- **What is captured for a token** comes from its word. -/
theorem Captures.of_reads {token : Token} {word output rest : Bytes}
    (text : payload.drop lexer.start = word ++ rest)
    (ends : lexer.position = lexer.start + word.length)
    (reads : Scanned.Reads token word output rest) (captured : lexer.output = output) :
    lexer.Captures payload := by
  cases reads with
  | eof | mark => exact .of_nothing (by omega) captured
  | number | bool | null => exact .of_whole text ends captured
  | text isText =>
      obtain ⟨body, rfl, hasUnits⟩ := isText.exists_body
      by_cases escaped : Ascii.backslash ∈ body
      · refine .unescaped ?_ escaped hasUnits captured
        rw [List.extract_eq_take_drop, text, ends, Nat.add_sub_cancel_left, List.take_left]
      · -- The stretch is that between the quotes.
        rw [hasUnits.spell_eq_self escaped] at captured
        simp only [List.length_cons, List.length_append, List.length_nil] at ends
        refine .stretch (lexer.start + 1) (lexer.start + 1 + body.length) (by omega) (by omega)
          (by omega) ?_
        rw [List.extract_eq_take_drop, Nat.add_sub_cancel_left, ← List.drop_drop, text,
          List.cons_append, List.drop_one, List.tail_cons, List.append_assoc, List.take_left,
          captured]

/-! ## Inside the payload -/

/-- **The lexer is inside the payload**: its two offsets are in order and do not lie behind the
payload's end, what it keeps of the payload agrees with them, and what is captured comes from
between them. -/
structure IsInside (payload : Bytes) (lexer : Lexer) : Prop extends lexer.Keeps payload where
  start_le : lexer.start ≤ lexer.position
  position_le : lexer.position ≤ payload.length
  captures : lexer.Captures payload

theorem isInside_ofBytes (payload : Bytes) : (ofBytes payload).IsInside payload where
  toKeeps := keeps_ofBytes payload
  start_le := Nat.le_refl 0
  position_le := Nat.zero_le _
  captures := .of_nothing (Nat.le_refl 0) rfl

namespace IsInside

/-- The number of bytes that are not read yet. -/
theorem length_ahead (inside : lexer.IsInside payload) :
    lexer.ahead.length = payload.length - lexer.position := by
  rw [inside.ahead_eq, List.length_drop]

/-- **One scan stays inside the payload.** -/
theorem scan (inside : lexer.IsInside payload) : lexer.scan.lexer.IsInside payload := by
  have keeps := inside.toKeeps.scan
  have length := inside.length_ahead
  have within := inside.position_le
  revert keeps
  cases going : lexer.fault with
  | some fault =>
      rw [Lexer.scan, going]
      intro _
      exact inside
  | none =>
      have divided := congrArg List.length
        (List.takeWhile_append_dropWhile (p := Ascii.isSpace) (l := lexer.ahead))
      rw [List.length_append] at divided
      rw [Lexer.scan, going]
      dsimp only
      cases scanned : Scanned.ofBytes (lexer.ahead.dropWhile Ascii.isSpace) with
      | token token taken output =>
          intro keeps
          have fits := Scanned.length_le_of_token scanned
          obtain ⟨word, rest, text, isTaken, reads⟩ := Scanned.reads_of_ofBytes scanned
          refine ⟨keeps, Nat.le_add_right _ _, ?_, ?_⟩
          · simp only [lexeme]
            omega
          · refine .of_reads (keeps.fromStart_eq.symm.trans text) ?_ reads rfl
            rw [isTaken]
            rfl
      | fault reason taken =>
          intro keeps
          have fits := Scanned.length_le_of_fault scanned
          refine ⟨keeps, Nat.le_add_right _ _, ?_, ?_⟩
          · simp only [lexeme]
            omega
          · have text := List.take_append_drop taken (lexer.ahead.dropWhile Ascii.isSpace)
            refine .of_whole (keeps.fromStart_eq.symm.trans text.symm) ?_ rfl
            rw [List.length_take_of_le fits]
            rfl

/-- **Only white space is passed over** on the way to the next token. -/
theorem passes_blanks (inside : lexer.IsInside payload) (going : lexer.fault = none) :
    lexer.position ≤ lexer.scan.lexer.start ∧
      ∀ byte ∈ payload.extract lexer.position lexer.scan.lexer.start,
        Ascii.isSpace byte = true := by
  have begins : lexer.scan.lexer.start =
      lexer.position + (lexer.ahead.takeWhile Ascii.isSpace).length := by
    rw [Lexer.scan, going]
    dsimp only
    cases Scanned.ofBytes (lexer.ahead.dropWhile Ascii.isSpace) <;> rfl
  have divided := List.takeWhile_append_dropWhile (p := Ascii.isSpace) (l := lexer.ahead)
  have passed : payload.extract lexer.position lexer.scan.lexer.start =
      lexer.ahead.takeWhile Ascii.isSpace := by
    rw [List.extract_eq_take_drop, ← inside.ahead_eq, begins, Nat.add_sub_cancel_left]
    exact (congrArg (List.take _) divided.symm).trans List.take_left
  refine ⟨by rw [begins]; exact Nat.le_add_right _ _, ?_⟩
  rw [passed]
  exact Ascii.all_of_mem_takeWhile

end IsInside

/-! ## The end and faults -/

/-- An error is the token of a fault. -/
theorem fault_ne_none_iff (lexer : Lexer) :
    lexer.scan.lexer.fault ≠ none ↔ lexer.scan.token = .error := by
  constructor
  · intro faulty
    by_contra genuine
    obtain ⟨_, -, -, -, -, noFault, -⟩ := exists_spaces genuine
    exact faulty noFault
  · intro isError
    cases going : lexer.fault with
    | some fault =>
        rw [scan, going]
        exact Option.some_ne_none fault ∘ going.symm.trans
    | none =>
        rw [scan, going] at isError ⊢
        dsimp only at isError ⊢
        cases scanned : Scanned.ofBytes (lexer.ahead.dropWhile Ascii.isSpace) with
        | token token taken output =>
            rw [scanned] at isError
            obtain ⟨_, _, -, -, reads⟩ := Scanned.reads_of_ofBytes scanned
            exact absurd isError reads.ne_error
        | fault reason taken => exact Option.some_ne_none reason

/-- **The end and a fault are read again and again**, in the same state. -/
theorem scan_scan_of_final (final : lexer.scan.token.isFinal = true) :
    lexer.scan.lexer.scan = lexer.scan := by
  by_cases isError : lexer.scan.token = .error
  · obtain ⟨fault, faulty⟩ := Option.ne_none_iff_exists'.mp (lexer.fault_ne_none_iff.mpr isError)
    rw [scan, faulty]
    dsimp only
    rw [← isError]
  · have isEnd : lexer.scan.token = .eof := by
      revert final isError
      cases lexer.scan.token <;> decide
    obtain ⟨blanks, blank, going, ahead⟩ := scan_eof_iff.mp isEnd
    have whole := scan_of_reads going (show lexer.ahead = blanks ++ ([] ++ []) from ahead) blank
      Ascii.stops_nil .eof
    rw [whole]
    rfl

end

end Lexer

end ChatCodec

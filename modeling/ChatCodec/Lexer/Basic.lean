import ChatCodec.Lexer.Scanned

/-!
# The lexer

A `Lexer` stands somewhere in a payload and reads it token by token.  It keeps the
bytes it has not read, where it is, where the token read last begins, what was
captured for that token, and the fault that stopped it, if one did.

`Lexer.scan` skips white space and reads one token.  After a fault it reads the
same error again and again, and at the end of the input the same end.  Every other
token takes up at least one byte (`Lexer.scan_ahead_lt`), so `Lexer.stream`, the
list of all tokens from here to the end or the fault, is finite.
-/

namespace ChatCodec

set_option autoImplicit false

/-- A position in a payload, together with the token read last. -/
structure Lexer where
  /-- The bytes that are not read yet. -/
  ahead : Bytes
  /-- The offset of the next unread byte. -/
  position : Nat
  /-- The offset at which the token read last begins. -/
  start : Nat
  /-- The bytes from the beginning of the token read last. -/
  fromStart : Bytes
  /-- What was captured for the token read last. -/
  output : Bytes
  /-- The fault that stopped the lexer. -/
  fault : Option Fault
  deriving DecidableEq, Repr

/-- A token, and the lexer as it stands after reading it. -/
structure Lexeme where
  token : Token
  lexer : Lexer
  deriving DecidableEq, Repr

namespace Lexer

/-- A lexer at the beginning of a payload. -/
def ofBytes (payload : Bytes) : Lexer where
  ahead := payload
  position := 0
  start := 0
  fromStart := payload
  output := []
  fault := none

/-- The lexeme of what was read at the front of `text`, which begins at `start`. -/
def lexeme (text : Bytes) (start : Nat) : Scanned → Lexeme
  | .token token length output =>
      ⟨token, ⟨text.drop length, start + length, start, text, output, none⟩⟩
  | .fault reason length =>
      ⟨.error, ⟨text.drop length, start + length, start, text, text.take length, some reason⟩⟩

/-- Reads the next token. -/
def scan (lexer : Lexer) : Lexeme :=
  match lexer.fault with
  | some _ => ⟨.error, lexer⟩
  | none =>
      let text := lexer.ahead.dropWhile Ascii.isSpace
      lexeme text (lexer.position + (lexer.ahead.takeWhile Ascii.isSpace).length)
        (Scanned.ofBytes text)

/-- The bytes from the beginning of the token read last by `lexer` up to where
`later` stands. -/
def rawTo (lexer later : Lexer) : Bytes :=
  lexer.fromStart.take (later.position - lexer.start)

/-! ## Every token takes up a byte -/

theorem token_of_ofWord {token? : Bytes → Option Token} {reason : Fault} {word : Bytes}
    {token : Token} {length : Nat} {output : Bytes}
    (scanned : Scanned.ofWord token? reason word = .token token length output) :
    token? word = some token ∧ length = word.length := by
  unfold Scanned.ofWord at scanned
  split at scanned
  · next found => cases scanned; exact ⟨found, rfl⟩
  · cases scanned

/-- A token other than the end takes up a byte. -/
theorem length_pos_of_token {text : Bytes} {token : Token} {length : Nat} {output : Bytes}
    (scanned : Scanned.ofBytes text = .token token length output) (begun : token ≠ .eof) :
    0 < length ∧ 0 < text.length := by
  cases text with
  | nil =>
      simp only [Scanned.ofBytes, Scanned.token.injEq] at scanned
      exact absurd scanned.1.symm begun
  | cons byte rest =>
      refine ⟨?_, by simp⟩
      simp only [Scanned.ofBytes] at scanned
      split at scanned
      · cases scanned; decide
      · split at scanned
        · unfold Scanned.ofText at scanned
          split at scanned
          · cases scanned
          · cases scanned; omega
        · split at scanned
          · next first =>
              obtain ⟨_, rfl⟩ := token_of_ofWord scanned
              have numeric : isNumberByte byte = true := by
                simp only [Bool.or_eq_true, beq_iff_eq] at first
                rcases first with rfl | digit
                · decide
                · simp [isNumberByte, Ascii.isAlphanumeric, digit]
              simp [numeric]
          · split at scanned
            · next letter =>
                obtain ⟨_, rfl⟩ := token_of_ofWord scanned
                have wordly : isWordByte byte = true := by
                  simp [isWordByte, Ascii.isAlphanumeric, letter]
                simp [wordly]
            · cases scanned

/-- **Reading makes progress.**  A token that is neither the end nor an error leaves
fewer bytes unread. -/
theorem scan_ahead_lt (lexer : Lexer) (going : lexer.scan.token.isFinal = false) :
    lexer.scan.lexer.ahead.length < lexer.ahead.length := by
  have shorter := (List.dropWhile_sublist Ascii.isSpace (l := lexer.ahead)).length_le
  revert going
  unfold scan
  split
  · intro going; cases going
  · simp only
    intro going
    cases scanned : Scanned.ofBytes (lexer.ahead.dropWhile Ascii.isSpace) with
    | token token length output =>
        rw [scanned] at going
        have begun : token ≠ .eof := by rintro rfl; cases going
        have positive := length_pos_of_token scanned begun
        simp only [lexeme, List.length_drop]
        omega
    | fault reason length => rw [scanned] at going; cases going

/-! ## All tokens from here on -/

/-- The tokens from here on: those before the end or the fault, and the end or the
fault itself. -/
structure Stream where
  lexemes : List Lexeme
  last : Lexeme
  deriving Repr

/-- The stream behind one more lexeme. -/
def Stream.behind (first : Lexeme) (stream : Stream) : Stream :=
  ⟨first :: stream.lexemes, stream.last⟩

/-- All tokens from here on, up to and with the first end or error. -/
def stream (lexer : Lexer) : Stream :=
  let next := lexer.scan
  if going : next.token.isFinal = false then
    have := scan_ahead_lt lexer going
    (stream next.lexer).behind next
  else ⟨[], next⟩
termination_by lexer.ahead.length

end Lexer

end ChatCodec

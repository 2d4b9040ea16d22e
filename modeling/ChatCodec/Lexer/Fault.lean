import ChatCodec.Text.Ascii
import ChatCodec.Text.Quoted

/-!
# Faults of the lexer

Why a lexer stops producing tokens, and the text of each reason.  A fault of a
scalar concerns the bytes of a number or a bare word; the others concern the byte
stream itself.
-/

namespace ChatCodec

set_option autoImplicit false

/-- A reason why no further token can be read. -/
inductive Fault where
  /-- A byte that cannot start a token. -/
  | unexpectedByte (byte : UInt8)
  /-- The input ended in the middle of a token. -/
  | unexpectedEof
  /-- A string was not closed before the end of the input. -/
  | unterminatedString
  /-- An escape was invalid. -/
  | invalidEscape
  /-- A control byte stood unescaped inside a string. -/
  | controlCharacter
  /-- The contents of a string were not valid UTF-8. -/
  | invalidUtf8
  /-- A bare word other than `true`, `false` and `null`. -/
  | invalidLiteral
  /-- A number outside the number grammar. -/
  | invalidNumber
  deriving DecidableEq, Repr

namespace Fault

/-- The scalar whose bytes the fault concerns, if it concerns a scalar. -/
def scalar? : Fault → Option String
  | invalidLiteral => some "literal"
  | invalidNumber => some "number"
  | _ => none

/-- The text of a fault.  An unexpected byte is shown as the Latin-1 character of
that number. -/
def message : Fault → String
  | unexpectedByte byte => "unexpected byte " ++ Quoted.latin byte
  | unexpectedEof => "unexpected end of input"
  | unterminatedString => "unterminated string"
  | invalidEscape => "invalid escape sequence"
  | controlCharacter => "control character in string"
  | invalidUtf8 => "invalid utf-8 in string"
  | invalidLiteral => "invalid literal"
  | invalidNumber => "invalid number"

end Fault

end ChatCodec

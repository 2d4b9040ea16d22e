import ChatCodec.Decimal.Literal
import ChatCodec.Lexer.Fault
import ChatCodec.Text.Escape
import ChatCodec.Token

/-!
# Reading one token

`Scanned.ofBytes` reads the token at the front of a byte list: which token it is,
how many bytes it takes up, and the bytes captured for it, or else the fault that
stands there and how many bytes belong to the fault.

* A string captures what its text means; its quotes and escapes are gone.
* A number is the longest run of letters, digits, dots and signs, and is in order
  if that run as a whole is in the number grammar.
* A word is the longest run of letters, digits and underscores, and is in order if
  it is one of the three literals.
-/

namespace ChatCodec

set_option autoImplicit false

/-! ## Strings -/

/-- The fault of a string whose units end that way. -/
def TextEnd.fault? : TextEnd → Option Fault
  | closed => none
  | unterminated => some .unterminatedString
  | control => some .controlCharacter
  | unknownEscape | malformedCode | shortCode => some .invalidEscape

/-! ## Numbers -/

/-- The bytes that a number or a malformed number is made of. -/
def isNumberByte (byte : UInt8) : Bool :=
  Ascii.isAlphanumeric byte || byte == Ascii.dot || byte == Ascii.plus || byte == Ascii.minus

/-- The token of a word in the number grammar: an integer if the word has neither a
fraction nor an exponent, and a double otherwise. -/
def numberToken? (word : Bytes) : Option Token :=
  (NumberLiteral.ofBytes? word).map fun literal =>
    if literal.isInteger then .integer else .double

/-! ## Bare words -/

/-- The bytes that a bare word is made of. -/
def isWordByte (byte : UInt8) : Bool :=
  Ascii.isAlphanumeric byte || byte == Ascii.underscore

/-- The token of a bare word. -/
def literalToken? (word : Bytes) : Option Token :=
  if word = bytesOf "true" ∨ word = bytesOf "false" then some .bool
  else if word = bytesOf "null" then some .null
  else none

/-! ## Tokens -/

/-- The token at the front of a byte list. -/
inductive Scanned where
  /-- A token, the number of bytes it takes up, and what is captured for it. -/
  | token (token : Token) (length : Nat) (output : Bytes)
  /-- A fault and the number of bytes that belong to it. -/
  | fault (fault : Fault) (length : Nat)
  deriving DecidableEq, Repr

namespace Scanned

/-- The one-byte tokens. -/
def punctuation? (byte : UInt8) : Option Token :=
  if byte = Ascii.openBrace then some .objectStart
  else if byte = Ascii.closeBrace then some .objectEnd
  else if byte = Ascii.openBracket then some .arrayStart
  else if byte = Ascii.closeBracket then some .arrayEnd
  else if byte = Ascii.colon then some .colon
  else if byte = Ascii.comma then some .comma
  else none

/-- The token of a word that is captured as it stands, or a fault of the word. -/
def ofWord (token? : Bytes → Option Token) (reason : Fault) (word : Bytes) : Scanned :=
  match token? word with
  | some found => .token found word.length word
  | none => .fault reason word.length

/-- The token of a string, its opening quote included. -/
def ofText (scan : TextScan) : Scanned :=
  match scan.ending.fault? with
  | some reason => .fault reason (scan.length + 1)
  | none => .token .string (scan.length + 1) (TextUnit.spell scan.units)

/-- Reads the token at the front.  The bytes do not begin with white space. -/
def ofBytes : Bytes → Scanned
  | [] => .token .eof 0 []
  | byte :: rest =>
      match punctuation? byte with
      | some found => .token found 1 []
      | none =>
          if byte = Ascii.quote then ofText (TextScan.ofBytes rest)
          else if byte == Ascii.minus || Ascii.isDigit byte then
            ofWord numberToken? .invalidNumber ((byte :: rest).takeWhile isNumberByte)
          else if Ascii.isLetter byte then
            ofWord literalToken? .invalidLiteral ((byte :: rest).takeWhile isWordByte)
          else .fault (.unexpectedByte byte) 1

end Scanned

end ChatCodec

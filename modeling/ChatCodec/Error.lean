import ChatCodec.Json.Fault
import ChatCodec.Lexer.Basic
import ChatCodec.Time.Timestamp

/-!
# Decoding errors

Why a payload cannot be decoded: a cause, the offset and the kind of the token at
which decoding stopped, and the bytes captured there, as text and cut to a bounded
length.

A lexer makes the errors, because it knows where it stands.  `Lexer.errorAt` is the
common form, in which only scalar tokens show their bytes; errors from a lexical
fault always show the bytes of the fault.
-/

namespace ChatCodec

set_option autoImplicit false

/-- What the grammar wants at some place. -/
inductive Wanted where
  | token (kind : Token)
  | value
  deriving DecidableEq, Repr

/-- The name of what is wanted. -/
def Wanted.name : Wanted → String
  | token kind => kind.name
  | value => "value"

/-- What another reader had against a value that was handed to it. -/
inductive Rejection where
  | timestamp (error : Timestamp.Error)
  | json (fault : Json.Fault)
  deriving DecidableEq, Repr

namespace Rejection

/-- The name of the reader. -/
def reader : Rejection → String
  | timestamp _ => "timestamp"
  | json _ => "serde_json"

def message : Rejection → String
  | timestamp error => error.message
  | json fault => fault.message

end Rejection

/-- Why decoding stopped. -/
inductive Cause where
  /-- A token that does not fit the grammar. -/
  | misplaced (wanted : Wanted) (found : Token)
  /-- A token that the type of the field cannot accept. -/
  | mismatch (wanted : String) (found : Token)
  /-- Captured bytes that are no such scalar. -/
  | malformed (wanted : String)
  /-- A value that another reader rejected. -/
  | rejected (rejection : Rejection)
  /-- A fault of the lexer. -/
  | lexical (fault : Fault)
  deriving DecidableEq, Repr

namespace Cause

/-- The text of a cause.  A fault of a scalar reads like any malformed scalar. -/
def message : Cause → String
  | misplaced wanted found => "wanted token " ++ wanted.name ++ ", but got token " ++ found.name
  | mismatch wanted found =>
      "cannot decode " ++ found.name ++ " into a value of type " ++ wanted
  | malformed wanted => "captured bytes are not a valid " ++ wanted
  | rejected rejection => rejection.reader ++ " codec rejected the value"
  | lexical fault =>
      match fault.scalar? with
      | some scalar => "captured bytes are not a valid " ++ scalar
      | none => fault.message

/-- The text of what lies behind a cause, if anything does. -/
def source? : Cause → Option String
  | rejected rejection => some rejection.message
  | lexical fault => fault.scalar?.map fun _ => fault.message
  | _ => none

end Cause

/-- A decoding error. -/
structure DecodeError where
  cause : Cause
  /-- The offset at which the offending token begins. -/
  offset : Nat
  token : Token
  /-- The bytes captured for the token, as text, if they are shown. -/
  output : Option String
  deriving DecidableEq, Repr

namespace DecodeError

/-- The number of captured bytes that an error shows at most. -/
abbrev outputLimit : Nat := 64

/-- The text of captured bytes, cut to the limit. -/
def shownOutput (output : Bytes) : String := Utf8.decodeLossy (output.take outputLimit)

/-- The text of an error. -/
def message (error : DecodeError) : String :=
  error.cause.message ++ " at byte " ++ toString error.offset ++
    match error.output with
    | some output => " (output: `" ++ output ++ "`)"
    | none => ""

end DecodeError

namespace Lexer

/-- An error at the token read last, taken as a token of the given kind. -/
def errorAt (lexer : Lexer) (cause : Cause) (found : Token) : DecodeError :=
  { cause
    offset := lexer.start
    token := found
    output := if found.isScalar then some (DecodeError.shownOutput lexer.output) else none }

/-- The error of a token that does not fit the grammar. -/
def wrongToken (lexer : Lexer) (wanted : Wanted) (found : Token) : DecodeError :=
  lexer.errorAt (.misplaced wanted found) found

/-- The error of a token that a type cannot accept. -/
def mismatch (lexer : Lexer) (wanted : String) (found : Token) : DecodeError :=
  lexer.errorAt (.mismatch wanted found) found

/-- The error of captured bytes that are no such scalar. -/
def malformed (lexer : Lexer) (wanted : String) (found : Token) : DecodeError :=
  lexer.errorAt (.malformed wanted) found

/-- The error of the fault that stopped the lexer. -/
def faultError (lexer : Lexer) : DecodeError :=
  { cause := .lexical (lexer.fault.getD .unexpectedEof)
    offset := lexer.start
    token := .error
    output := some (DecodeError.shownOutput lexer.output) }

/-- The captured bytes as text. -/
def outputText (lexer : Lexer) : Except DecodeError String :=
  match Utf8.decode lexer.output with
  | some text => .ok text
  | none =>
      .error {
        cause := .lexical .invalidUtf8
        offset := lexer.start
        token := .string
        output := none }

end Lexer

end ChatCodec

/-!
# Tokens

The thirteen kinds of token of a document, with the name each has in messages
and the two classes that the grammar distinguishes: tokens that can begin a
value, and tokens that are a whole value.
-/

namespace ChatCodec

set_option autoImplicit false

/-- A kind of token.  Scalar tokens carry no data themselves; the bytes that were
read for them are kept by the lexer. -/
inductive Token where
  | objectStart
  | objectEnd
  | arrayStart
  | arrayEnd
  | colon
  | comma
  | string
  | integer
  | double
  | bool
  | null
  | eof
  | error
  deriving DecidableEq, Repr, Inhabited

namespace Token

/-- Every token, in the order of the grammar. -/
def all : List Token :=
  [objectStart, objectEnd, arrayStart, arrayEnd, colon, comma, string, integer, double, bool,
    null, eof, error]

/-- A scalar token is a whole value by itself. -/
def isScalar : Token → Bool
  | string | integer | double | bool | null => true
  | _ => false

/-- An opening token begins a value that goes on until its closing token. -/
def isOpening : Token → Bool
  | objectStart | arrayStart => true
  | _ => false

/-- Whether the token can begin a value. -/
def isValue (token : Token) : Bool :=
  token.isScalar || token.isOpening

/-- A closing token ends the innermost open value. -/
def isClosing : Token → Bool
  | objectEnd | arrayEnd => true
  | _ => false

/-- After a final token nothing else is read. -/
def isFinal : Token → Bool
  | eof | error => true
  | _ => false

/-- The name used in messages. -/
def name : Token → String
  | objectStart => "'\x7b'"
  | objectEnd => "'\x7d'"
  | arrayStart => "'['"
  | arrayEnd => "']'"
  | colon => "':'"
  | comma => "','"
  | string => "string"
  | integer => "integer"
  | double => "double"
  | bool => "bool"
  | null => "null"
  | eof => "end of input"
  | error => "error"

end Token

end ChatCodec

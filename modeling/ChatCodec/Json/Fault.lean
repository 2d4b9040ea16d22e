import ChatCodec.Json.Number
import ChatCodec.Text.Quoted

/-!
# Refusals of the strict reader

Why the strict reader of JSON refuses a document.  A document may be at odds with
the grammar, may end too early, or may be in order and still not suit the type it
is read as; `Json.Fault.category` tells these three apart, and `Json.Fault.message`
is the text.
-/

namespace ChatCodec

set_option autoImplicit false

namespace Json

/-- What was found where a value of some type was wanted. -/
inductive Found where
  | integer (value : Int)
  | floatingPoint (bits : UInt64)
  | boolean (value : Bool)
  | text (value : String)
  | null
  | unit
  | option
  | sequence
  | map
  deriving DecidableEq, Repr

/-- The name of what was found. -/
def Found.name : Found → String
  | integer value => "integer `" ++ String.ofList ((Decimal.ofInt value).map Char.ofUInt8) ++ "`"
  | floatingPoint bits => "floating point `" ++ Number.doubleText bits ++ "`"
  | boolean value => "boolean `" ++ (if value then "true" else "false") ++ "`"
  | text value => "string " ++ Quoted.text value
  | null => "null"
  | unit => "unit value"
  | option => "Option value"
  | sequence => "sequence"
  | map => "map"

/-- Why a document that is in order does not suit the type it is read as. -/
inductive Complaint where
  /-- A value of another type was found. -/
  | invalidType (found : Found) (wanted : String)
  /-- A value of the right type is out of the question. -/
  | invalidValue (found : Found) (wanted : String)
  /-- A known key occurs twice. -/
  | duplicateKey (key : String)
  /-- A conversion of its own kind refused the value. -/
  | custom (text : String)
  deriving DecidableEq, Repr

def Complaint.message : Complaint → String
  | invalidType found wanted => "invalid type: " ++ found.name ++ ", expected " ++ wanted
  | invalidValue found wanted => "invalid value: " ++ found.name ++ ", expected " ++ wanted
  | duplicateKey key => "duplicate field `" ++ key ++ "`"
  | custom text => text

/-- Why the strict reader refuses a document. -/
inductive Fault where
  | eofInList
  | eofInObject
  | eofInString
  | eofInValue
  | expectedColon
  | expectedListCommaOrEnd
  | expectedObjectCommaOrEnd
  | expectedIdent
  | expectedValue
  | invalidEscape
  | invalidNumber
  | numberOutOfRange
  | invalidCodePoint
  | controlCharacter
  | keyMustBeString
  | loneSurrogate
  | unfinishedPair
  | trailingComma
  | trailingCharacters
  | recursionLimit
  | unsuited (complaint : Complaint)
  deriving DecidableEq, Repr

/-- The three kinds of refusal. -/
inductive Category where
  /-- The document is at odds with the grammar. -/
  | grammar
  /-- The document does not suit the type. -/
  | data
  /-- The document ends too early. -/
  | eof
  deriving DecidableEq, Repr

namespace Fault

def category : Fault → Category
  | eofInList | eofInObject | eofInString | eofInValue => .eof
  | unsuited _ => .data
  | _ => .grammar

def message : Fault → String
  | eofInList => "EOF while parsing a list"
  | eofInObject => "EOF while parsing an object"
  | eofInString => "EOF while parsing a string"
  | eofInValue => "EOF while parsing a value"
  | expectedColon => "expected `:`"
  | expectedListCommaOrEnd => "expected `,` or `]`"
  | expectedObjectCommaOrEnd => "expected `,` or `\x7d`"
  | expectedIdent => "expected ident"
  | expectedValue => "expected value"
  | invalidEscape => "invalid escape"
  | invalidNumber => "invalid number"
  | numberOutOfRange => "number out of range"
  | invalidCodePoint => "invalid unicode code point"
  | controlCharacter => "control character (\\u0000-\\u001F) found while parsing a string"
  | keyMustBeString => "key must be a string"
  | loneSurrogate => "lone leading surrogate in hex escape"
  | unfinishedPair => "unexpected end of hex escape"
  | trailingComma => "trailing comma"
  | trailingCharacters => "trailing characters"
  | recursionLimit => "recursion limit exceeded"
  | unsuited complaint => complaint.message

end Fault

end Json

end ChatCodec

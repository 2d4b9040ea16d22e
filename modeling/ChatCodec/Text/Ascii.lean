import ChatCodec.Text.Utf8

/-!
# ASCII bytes

The grammar of a document is made of ASCII bytes.  This module names the ones
that carry meaning and holds the byte classes of the grammar: white space,
digits, letters, hexadecimal digits.  A byte above `7F` is in none of them.
-/

namespace ChatCodec

set_option autoImplicit false

namespace Ascii

/-! ## Named bytes -/

abbrev backspace : UInt8 := 0x08
abbrev tab : UInt8 := 0x09
abbrev lineFeed : UInt8 := 0x0A
abbrev formFeed : UInt8 := 0x0C
abbrev carriageReturn : UInt8 := 0x0D
abbrev space : UInt8 := 0x20
abbrev quote : UInt8 := 0x22
abbrev plus : UInt8 := 0x2B
abbrev comma : UInt8 := 0x2C
abbrev minus : UInt8 := 0x2D
abbrev dot : UInt8 := 0x2E
abbrev slash : UInt8 := 0x2F
abbrev zero : UInt8 := 0x30
abbrev nine : UInt8 := 0x39
abbrev colon : UInt8 := 0x3A
abbrev openBracket : UInt8 := 0x5B
abbrev backslash : UInt8 := 0x5C
abbrev closeBracket : UInt8 := 0x5D
abbrev underscore : UInt8 := 0x5F
abbrev openBrace : UInt8 := 0x7B
abbrev closeBrace : UInt8 := 0x7D

/-! ## Classes -/

/-- Space, tab, line feed and carriage return separate tokens. -/
def isSpace (byte : UInt8) : Bool :=
  byte == space || byte == tab || byte == lineFeed || byte == carriageReturn

/-- The ten decimal digits. -/
def isDigit (byte : UInt8) : Bool :=
  zero ≤ byte && byte ≤ nine

/-- The letters `A` to `Z`. -/
def isUpper (byte : UInt8) : Bool :=
  0x41 ≤ byte && byte ≤ 0x5A

/-- The letters `a` to `z`. -/
def isLower (byte : UInt8) : Bool :=
  0x61 ≤ byte && byte ≤ 0x7A

/-- The letters of either case. -/
def isLetter (byte : UInt8) : Bool :=
  isUpper byte || isLower byte

/-- Letters and digits. -/
def isAlphanumeric (byte : UInt8) : Bool :=
  isLetter byte || isDigit byte

/-- The bytes that a string may not hold unescaped, other than the quote and the
backslash. -/
def isControl (byte : UInt8) : Bool :=
  byte < space

/-- The lower-case form of a letter; any other byte is itself. -/
def toLower (byte : UInt8) : UInt8 :=
  if isUpper byte then byte + 0x20 else byte

/-- The value of a hexadecimal digit of either case. -/
def hexValue? (byte : UInt8) : Option Nat :=
  if isDigit byte then some (byte.toNat - 0x30)
  else if 0x61 ≤ byte && byte ≤ 0x66 then some (byte.toNat - 0x57)
  else if 0x41 ≤ byte && byte ≤ 0x46 then some (byte.toNat - 0x37)
  else none

/-- The lower-case hexadecimal digit of a value below sixteen. -/
def hexDigit (value : Nat) : UInt8 :=
  if value < 10 then UInt8.ofNat (0x30 + value) else UInt8.ofNat (0x57 + value)

/-- The value of four hexadecimal digits. -/
def hexFour? (first second third fourth : UInt8) : Option Nat := do
  let first ← hexValue? first
  let second ← hexValue? second
  let third ← hexValue? third
  let fourth ← hexValue? fourth
  some (((first * 16 + second) * 16 + third) * 16 + fourth)

end Ascii

end ChatCodec

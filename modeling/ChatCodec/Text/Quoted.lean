import ChatCodec.Text.Unseen

/-!
# Texts shown between quotes

Messages show a text or a character between quotes, with escapes for what would
not be seen: the null character, tab, line feed and carriage return have
one-letter escapes, the backslash and the quote in use are written behind a
backslash, and every other unseen character is written as `\u` with its
hexadecimal code point in braces.
-/

namespace ChatCodec

set_option autoImplicit false

namespace Quoted

/-- A lower-case hexadecimal number without leading zeros. -/
def hexadecimal (number : Nat) : String := String.ofList (Nat.toDigits 16 number)

/-- The form of one character between the given quotes. -/
def shown (quote character : Char) : String :=
  if character = Char.ofNat 0 then "\\0"
  else if character = '\t' then "\\t"
  else if character = '\n' then "\\n"
  else if character = '\r' then "\\r"
  else if character = '\\' ∨ character = quote then String.ofList ['\\', character]
  else if Unseen.isUnseen character then "\\u\x7b" ++ hexadecimal character.toNat ++ "\x7d"
  else String.ofList [character]

/-- A text between double quotes. -/
def text (text : String) : String :=
  "\"" ++ String.join (text.toList.map (shown '"')) ++ "\""

/-- The Latin-1 character of a byte, between single quotes. -/
def latin (byte : UInt8) : String :=
  "'" ++ shown '\'' (Char.ofNat byte.toNat) ++ "'"

end Quoted

end ChatCodec

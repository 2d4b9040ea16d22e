/-!
# White space in text

The characters with the Unicode property `White_Space`, and trimming by it.
Settings and sticker tags are trimmed by this property, which is wider than the
four blanks of the document grammar and wider than the ASCII blanks of `Char`.
-/

namespace ChatCodec

set_option autoImplicit false

namespace Blank

/-- The twenty-five characters with the property `White_Space`. -/
def isBlank (character : Char) : Bool :=
  let code := character.toNat
  (0x09 ≤ code && code ≤ 0x0D) || code == 0x20 || code == 0x85 || code == 0xA0
    || code == 0x1680 || (0x2000 ≤ code && code ≤ 0x200A)
    || code == 0x2028 || code == 0x2029 || code == 0x202F || code == 0x205F || code == 0x3000

/-- The characters from the first to the last that is not blank. -/
def trim (characters : List Char) : List Char :=
  ((characters.dropWhile isBlank).reverse.dropWhile isBlank).reverse

/-- A text without the blanks at its two ends. -/
def trimText (text : String) : String :=
  String.ofList (trim text.toList)

/-- ASCII white space is blank. -/
theorem isBlank_of_isWhitespace (character : Char) (white : character.isWhitespace = true) :
    isBlank character = true := by
  simp only [Char.isWhitespace, Bool.or_eq_true, decide_eq_true_eq] at white
  rcases white with ((rfl | rfl) | rfl) | rfl <;> decide

end Blank

end ChatCodec

import ChatCodec.Text.Ascii

/-!
# Escapes in string literals

The text between the quotes of a string literal is a sequence of units: a raw
byte, a one-letter escape, or a `\u` escape that gives one UTF-16 code unit.

Reading has two steps.  `TextScan.ofBytes` cuts the bytes behind an opening quote
into units, up to the closing quote or to the first place where no unit stands,
and says how it ended.  What the units mean is settled by `spell`: a leading
surrogate directly followed by a trailing one is the character the two stand for,
and any other surrogate is one replacement character.  Stricter readers start from
the same units.

Writing (`quoted`) uses a one-letter escape where there is one, `\u00` with two
lower-case hexadecimal digits for the other control bytes, and the byte itself
for the rest.
-/

namespace ChatCodec

set_option autoImplicit false

/-- A unit of the text of a string literal. -/
inductive TextUnit where
  /-- A byte, written raw or as a one-letter escape. -/
  | byte (value : UInt8)
  /-- A UTF-16 code unit, written as a `\u` escape. -/
  | code (value : Nat)
  deriving DecidableEq, Repr

namespace TextUnit

/-! ## Reading -/

/-- The byte that a one-letter escape stands for. -/
def ofLetter? (letter : UInt8) : Option UInt8 :=
  if letter = Ascii.quote ∨ letter = Ascii.backslash ∨ letter = Ascii.slash then some letter
  else if letter = 0x62 then some Ascii.backspace
  else if letter = 0x66 then some Ascii.formFeed
  else if letter = 0x6E then some Ascii.lineFeed
  else if letter = 0x72 then some Ascii.carriageReturn
  else if letter = 0x74 then some Ascii.tab
  else none

/-- The letter of a `\u` escape. -/
abbrev unicodeLetter : UInt8 := 0x75

/-- Leading surrogates begin a pair. -/
def isLeading (unit : Nat) : Bool := 0xD800 ≤ unit && unit < 0xDC00

/-- Trailing surrogates end a pair. -/
def isTrailing (unit : Nat) : Bool := 0xDC00 ≤ unit && unit < 0xE000

/-- The character that a pair of surrogates stands for. -/
def joined (leading trailing : Nat) : Char :=
  Char.ofNat (0x10000 + (leading - 0xD800) * 0x400 + (trailing - 0xDC00))

/-- The character of a code unit by itself. -/
def alone (unit : Nat) : Char :=
  if isLeading unit || isTrailing unit then Utf8.replacement else Char.ofNat unit

/-- The bytes that a sequence of units stands for. -/
def spell : List TextUnit → Bytes
  | [] => []
  | .byte value :: rest => value :: spell rest
  | .code unit :: rest =>
      match rest with
      | .code next :: rest' =>
          if isLeading unit && isTrailing next then
            String.utf8EncodeChar (joined unit next) ++ spell rest'
          else String.utf8EncodeChar (alone unit) ++ spell (.code next :: rest')
      | rest => String.utf8EncodeChar (alone unit) ++ spell rest

/-- A code unit that does not lead a pair stands alone. -/
theorem spell_alone {unit : Nat} (notLeading : ¬ isLeading unit = true) (rest : List TextUnit) :
    spell (.code unit :: rest) = String.utf8EncodeChar (alone unit) ++ spell rest := by
  rw [Bool.not_eq_true] at notLeading
  cases rest with
  | nil => simp only [spell]
  | cons next following =>
      cases next with
      | byte value => simp only [spell]
      | code value => rw [spell, notLeading, Bool.false_and, if_neg Bool.false_ne_true]

end TextUnit

/-! ## Cutting a text into units -/

/-- How the units of a text end. -/
inductive TextEnd where
  /-- A closing quote. -/
  | closed
  /-- The end of the bytes, perhaps behind a backslash. -/
  | unterminated
  /-- A control byte. -/
  | control
  /-- A backslash before a byte that is no escape letter. -/
  | unknownEscape
  /-- A `\u` before four bytes that are not all hexadecimal digits. -/
  | malformedCode
  /-- A `\u` with fewer than four bytes behind it. -/
  | shortCode
  deriving DecidableEq, Repr

/-- The bytes behind an opening quote: the units, how they end, and the number of
bytes from the opening quote to the end.  The end takes in the closing quote, the
control byte, or the escape up to its letter. -/
structure TextScan where
  units : List TextUnit
  ending : TextEnd
  length : Nat
  deriving DecidableEq, Repr

namespace TextScan

/-- The same scan behind one more unit of the given length. -/
def behind (unit : TextUnit) (taken : Nat) (scan : TextScan) : TextScan :=
  ⟨unit :: scan.units, scan.ending, taken + scan.length⟩

/-- Cuts the bytes behind an opening quote into units. -/
def ofBytes : Bytes → TextScan
  | [] => ⟨[], .unterminated, 0⟩
  | byte :: rest =>
      if byte = Ascii.quote then ⟨[], .closed, 1⟩
      else if byte = Ascii.backslash then
        match rest with
        | [] => ⟨[], .unterminated, 1⟩
        | letter :: rest =>
            if letter = TextUnit.unicodeLetter then
              match rest with
              | first :: second :: third :: fourth :: rest =>
                  match Ascii.hexFour? first second third fourth with
                  | some unit => (ofBytes rest).behind (.code unit) 6
                  | none => ⟨[], .malformedCode, 2⟩
              | _ => ⟨[], .shortCode, 2⟩
            else
              match TextUnit.ofLetter? letter with
              | some value => (ofBytes rest).behind (.byte value) 2
              | none => ⟨[], .unknownEscape, 2⟩
      else if Ascii.isControl byte then ⟨[], .control, 1⟩
      else (ofBytes rest).behind (.byte byte) 1

theorem ofBytes_quote (rest : Bytes) : ofBytes (Ascii.quote :: rest) = ⟨[], .closed, 1⟩ := by
  rw [ofBytes.eq_def]
  simp only [if_true]

theorem ofBytes_byte {byte : UInt8} (rest : Bytes) (notQuote : byte ≠ Ascii.quote)
    (notBackslash : byte ≠ Ascii.backslash) (visible : Ascii.isControl byte = false) :
    ofBytes (byte :: rest) = (ofBytes rest).behind (.byte byte) 1 := by
  rw [ofBytes.eq_def]
  simp only [if_neg notQuote, if_neg notBackslash, visible, Bool.false_eq_true, if_false]

theorem ofBytes_letter {letter value : UInt8} (rest : Bytes)
    (notCode : letter ≠ TextUnit.unicodeLetter) (known : TextUnit.ofLetter? letter = some value) :
    ofBytes (Ascii.backslash :: letter :: rest) = (ofBytes rest).behind (.byte value) 2 := by
  rw [ofBytes.eq_def]
  simp only [show Ascii.backslash ≠ Ascii.quote by decide, if_false, if_true, if_neg notCode, known]

theorem ofBytes_code {first second third fourth : UInt8} {unit : Nat} (rest : Bytes)
    (digits : Ascii.hexFour? first second third fourth = some unit) :
    ofBytes (Ascii.backslash :: TextUnit.unicodeLetter :: first :: second :: third :: fourth ::
      rest) = (ofBytes rest).behind (.code unit) 6 := by
  rw [ofBytes.eq_def]
  simp only [show Ascii.backslash ≠ Ascii.quote by decide, if_false, if_true, digits]

end TextScan

/-! ## Writing -/

/-- The form of one byte inside a string literal. -/
def escapedByte (byte : UInt8) : Bytes :=
  if byte = Ascii.quote then [Ascii.backslash, Ascii.quote]
  else if byte = Ascii.backslash then [Ascii.backslash, Ascii.backslash]
  else if byte = Ascii.lineFeed then [Ascii.backslash, 0x6E]
  else if byte = Ascii.carriageReturn then [Ascii.backslash, 0x72]
  else if byte = Ascii.tab then [Ascii.backslash, 0x74]
  else if byte = Ascii.backspace then [Ascii.backslash, 0x62]
  else if byte = Ascii.formFeed then [Ascii.backslash, 0x66]
  else if Ascii.isControl byte then
    [Ascii.backslash, TextUnit.unicodeLetter, Ascii.zero, Ascii.zero,
      Ascii.hexDigit (byte.toNat / 16), Ascii.hexDigit (byte.toNat % 16)]
  else [byte]

/-- A text as a string literal. -/
def quoted (text : String) : Bytes :=
  Ascii.quote :: ((bytesOf text).flatMap escapedByte ++ [Ascii.quote])

end ChatCodec

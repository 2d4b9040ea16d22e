import ChatCodec.Json.Fault
import ChatCodec.Lexer.Scanned
import ChatCodec.Nesting

/-!
# Pieces of a strict document

The strict reader sees a document as a stream of pieces: punctuation, scalars, and
the end.  A scalar piece keeps the bytes from its beginning on and is read only when
its value is wanted (`Atom.read`), because passing over a value and reading it do
not refuse the same scalars: passing over looks at the grammar alone
(`Scalar.pass`), while reading also looks at surrogates, at UTF-8 and at the size of
numbers, and refuses at the first byte that is at fault.

A scalar that cannot be passed over ends the stream, in a `broken` piece with the
refusal of whoever passes over it.
-/

namespace ChatCodec

set_option autoImplicit false

namespace Json

/-! ## Reading a scalar -/

/-- The value of a scalar. -/
inductive Atom where
  | null
  | bool (value : Bool)
  | number (value : Number)
  | text (value : String)
  deriving DecidableEq, Repr

/-- The refusal of a text that ends that way, before a closing quote. -/
def textFault? : TextEnd → Option Fault
  | .closed => none
  | .unterminated | .shortCode => some .eofInString
  | .control => some .controlCharacter
  | .unknownEscape | .malformedCode => some .invalidEscape

/-- The refusal of a text that ends that way directly behind a leading surrogate,
where a second `\u` escape is wanted. -/
def pairFault : TextEnd → Fault
  | .closed | .control | .unknownEscape => .unfinishedPair
  | .unterminated | .shortCode => .eofInString
  | .malformedCode => .invalidEscape

/-- The bytes of a text, unless a surrogate is not part of a pair. -/
def spellStrictly (ending : TextEnd) : List TextUnit → Except Fault Bytes
  | [] =>
      match textFault? ending with
      | some fault => .error fault
      | none => .ok []
  | .byte value :: rest => (spellStrictly ending rest).map (value :: ·)
  | .code unit :: rest =>
      if TextUnit.isTrailing unit then .error .loneSurrogate
      else if TextUnit.isLeading unit then
        match rest with
        | [] => .error (pairFault ending)
        | .byte _ :: _ => .error .unfinishedPair
        | .code next :: rest =>
            if TextUnit.isTrailing next then
              (spellStrictly ending rest).map
                (String.utf8EncodeChar (TextUnit.joined unit next) ++ ·)
            else .error .loneSurrogate
      else (spellStrictly ending rest).map (String.utf8EncodeChar (Char.ofNat unit) ++ ·)

/-- The text behind an opening quote. -/
def readText (bytes : Bytes) : Except Fault String := do
  let scan := TextScan.ofBytes bytes
  let spelled ← spellStrictly scan.ending scan.units
  match Utf8.decode spelled with
  | some text => .ok text
  | none => .error .invalidCodePoint

/-- The number at the front. -/
def readNumber (bytes : Bytes) : Except Fault Number :=
  match NumberLiteral.cut bytes with
  | .error [] => .error .eofInValue
  | .error (_ :: _) => .error .invalidNumber
  | .ok (literal, _) =>
      match Number.ofLiteral? literal with
      | some number => .ok number
      | none => .error .numberOutOfRange

/-- What follows a word that is spelled out at the front. -/
def passWord : Bytes → Bytes → Except Fault Bytes
  | [], bytes => .ok bytes
  | _ :: _, [] => .error .eofInValue
  | wanted :: word, byte :: rest =>
      if byte = wanted then passWord word rest else .error .expectedIdent

/-- The three literal words, each with its value. -/
def words : List (Bytes × Atom) :=
  [(bytesOf "null", .null), (bytesOf "true", .bool true), (bytesOf "false", .bool false)]

/-- The literal word that begins with a byte. -/
def wordAt? (byte : UInt8) : Option (Bytes × Atom) :=
  words.find? fun word => word.1.head? == some byte

/-- Whether a byte begins a number. -/
def beginsNumber (byte : UInt8) : Bool := byte == Ascii.minus || Ascii.isDigit byte

/-- The value of the scalar at the front. -/
def Atom.read : Bytes → Except Fault Atom
  | [] => .error .eofInValue
  | byte :: rest =>
      if byte = Ascii.quote then (readText rest).map .text
      else if beginsNumber byte then (readNumber (byte :: rest)).map .number
      else
        match wordAt? byte with
        | some (word, atom) => (passWord word (byte :: rest)).map fun _ => atom
        | none => .error .expectedValue

/-! ## Passing over a scalar -/

/-- What follows the scalar at the front. -/
def Scalar.pass : Bytes → Except Fault Bytes
  | [] => .error .eofInValue
  | byte :: rest =>
      if byte = Ascii.quote then
        let scan := TextScan.ofBytes rest
        match textFault? scan.ending with
        | some fault => .error fault
        | none => .ok (rest.drop scan.length)
      else if beginsNumber byte then
        match NumberLiteral.cut (byte :: rest) with
        | .error _ => .error .invalidNumber
        | .ok (_, rest) => .ok rest
      else
        match wordAt? byte with
        | some (word, _) => passWord word (byte :: rest)
        | none => .error .expectedValue

/-! ## The stream of pieces -/

/-- A piece of a strict document. -/
inductive Piece where
  /-- A bracket, a colon or a comma. -/
  | mark (token : Token)
  /-- A scalar, and the bytes from its beginning on. -/
  | scalar (source : Bytes)
  /-- The end of the document. -/
  | eof
  /-- The place behind a scalar that cannot be passed over. -/
  | broken (fault : Fault)
  deriving DecidableEq, Repr

namespace Piece

/-- The part that a piece plays in the nesting. -/
def role : Piece → Role
  | mark token =>
      if token.isOpening then .opens else if token.isClosing then .closes else .stands
  | _ => .stands

/-- The pieces from here on, before the last, and the last.  At most `count` pieces
are cut off, and every piece takes up at least one byte. -/
def cut : Nat → Bytes → List Piece × Piece
  | 0, _ => ([], eof)
  | count + 1, bytes =>
      match bytes.dropWhile Ascii.isSpace with
      | [] => ([], eof)
      | byte :: rest =>
          match Scanned.punctuation? byte with
          | some token =>
              let following := cut count rest
              (mark token :: following.1, following.2)
          | none =>
              match Scalar.pass (byte :: rest) with
              | .ok rest' =>
                  let following := cut count rest'
                  (scalar (byte :: rest) :: following.1, following.2)
              | .error fault => ([scalar (byte :: rest)], broken fault)

section

variable {count : Nat} {bytes rest : Bytes} {byte : UInt8}

theorem cut_of_mark {token : Token} (begins : bytes.dropWhile Ascii.isSpace = byte :: rest)
    (known : Scanned.punctuation? byte = some token) :
    cut (count + 1) bytes = (mark token :: (cut count rest).1, (cut count rest).2) := by
  rw [cut, begins]
  simp only [known]

theorem cut_of_scalar {behind : Bytes} (begins : bytes.dropWhile Ascii.isSpace = byte :: rest)
    (noMark : Scanned.punctuation? byte = none) (passed : Scalar.pass (byte :: rest) = .ok behind) :
    cut (count + 1) bytes =
      (scalar (byte :: rest) :: (cut count behind).1, (cut count behind).2) := by
  rw [cut, begins]
  simp only [noMark, passed]

end

/-- A document as a body of pieces. -/
def body (document : Bytes) : Body Piece :=
  let pieces := cut (document.length + 1) document
  Body.ofList role pieces.2 pieces.1

end Piece

end Json

end ChatCodec

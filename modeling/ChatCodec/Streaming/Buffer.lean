import ChatCodec.Decimal
import ChatCodec.Text.Escape

/-!
# Output buffers

A buffer holds the bytes written so far.  Writing appends, and `Buffer.rewind` drops
bytes from the end.  What each operation does is said through the list of the bytes,
`Buffer.bytes`.

The digits of a number are found from its last to its first.  Of a text, bytes that need
no escape are written in runs, each as a whole when an escape or the end is reached.

An object is written field by field through an `ObjectWriter`, which puts a comma
behind each field and takes the last one back when the object is closed.
-/

namespace ChatCodec

set_option autoImplicit false

/-- The bytes written so far. -/
structure Buffer where
  written : Array UInt8
  deriving DecidableEq, Repr

namespace Buffer

/-- Nothing written. -/
def empty : Buffer := ⟨#[]⟩

/-- The bytes written so far, as a list. -/
def bytes (buffer : Buffer) : Bytes := buffer.written.toList

/-- The number of bytes written. -/
def length (buffer : Buffer) : Nat := buffer.written.size

/-- Whether nothing is written. -/
def isEmpty (buffer : Buffer) : Bool := buffer.written.isEmpty

/-- Appends bytes. -/
def write (buffer : Buffer) (bytes : Bytes) : Buffer := ⟨buffer.written.appendList bytes⟩

/-- Appends one byte. -/
def writeByte (buffer : Buffer) (byte : UInt8) : Buffer := ⟨buffer.written.push byte⟩

/-- Appends a text as it stands. -/
def writeText (buffer : Buffer) (text : String) : Buffer := buffer.write (bytesOf text)

/-- The digits of a number, found from the last to the first, in front of those that were
found before. -/
def digitsBefore (number : Nat) (found : Bytes) : Bytes :=
  let found := Decimal.digit (number % 10) :: found
  if number / 10 = 0 then found else digitsBefore (number / 10) found
termination_by number

/-- Appends a natural number in decimal. -/
def writeNat (buffer : Buffer) (number : Nat) : Buffer := buffer.write (digitsBefore number [])

/-- Appends an integer in decimal. -/
def writeInt (buffer : Buffer) (number : Int) : Buffer :=
  (if number < 0 then buffer.writeByte Ascii.minus else buffer).writeNat number.natAbs

/-- The bytes that have a one-letter escape, each with its letter. -/
def escapeLetters : List (UInt8 × UInt8) :=
  [(Ascii.quote, Ascii.quote), (Ascii.backslash, Ascii.backslash), (Ascii.lineFeed, 0x6E),
    (Ascii.carriageReturn, 0x72), (Ascii.tab, 0x74), (Ascii.backspace, 0x62),
    (Ascii.formFeed, 0x66)]

/-- The escape of a byte that may not stand for itself. -/
def escape? (byte : UInt8) : Option Bytes :=
  match escapeLetters.lookup byte with
  | some letter => some [Ascii.backslash, letter]
  | none =>
      if Ascii.isControl byte then
        some (bytesOf "\\u00" ++
          [Ascii.hexDigit (byte.toNat / 16), Ascii.hexDigit (byte.toNat % 16)])
      else none

/-- Appends the rest of a text with its escapes.  The `length` bytes at the front of `run`
lie before the rest; they stand for themselves and are not written yet. -/
def writeEscaped (buffer : Buffer) (run : Bytes) (length : Nat) : Bytes → Buffer
  | [] => buffer.write (run.take length)
  | byte :: rest =>
      match escape? byte with
      | none => writeEscaped buffer run (length + 1) rest
      | some escape => writeEscaped ((buffer.write (run.take length)).write escape) rest 0 rest

/-- Appends a text as a string literal. -/
def writeQuoted (buffer : Buffer) (text : String) : Buffer :=
  (writeEscaped (buffer.writeByte Ascii.quote) (bytesOf text) 0 (bytesOf text)).writeByte
    Ascii.quote

/-- Drops bytes from the end, all of them if there are not so many. -/
def rewind (buffer : Buffer) (count : Nat) : Buffer :=
  ⟨buffer.written.shrink (buffer.length - count)⟩

/-! ## The bytes of a buffer -/

@[simp] theorem bytes_empty : empty.bytes = [] := rfl

@[simp] theorem length_bytes (buffer : Buffer) : buffer.bytes.length = buffer.length := by
  simp [bytes, length]

@[simp] theorem bytes_write (buffer : Buffer) (bytes : Bytes) :
    (buffer.write bytes).bytes = buffer.bytes ++ bytes := by
  simp [write, Buffer.bytes]

@[simp] theorem bytes_writeByte (buffer : Buffer) (byte : UInt8) :
    (buffer.writeByte byte).bytes = buffer.bytes ++ [byte] := by
  simp [writeByte, bytes]

@[simp] theorem bytes_rewind (buffer : Buffer) (count : Nat) :
    (buffer.rewind count).bytes = buffer.bytes.take (buffer.length - count) := by
  simp [rewind, bytes]

theorem isEmpty_iff (buffer : Buffer) : buffer.isEmpty = true ↔ buffer.bytes = [] := by
  simp [isEmpty, bytes]

/-- Two buffers with the same bytes are the same. -/
theorem eq_of_bytes {first second : Buffer} (same : first.bytes = second.bytes) :
    first = second := by
  cases first; cases second
  simpa [bytes] using same

end Buffer

/-- An object that is being written. -/
structure ObjectWriter where
  buffer : Buffer
  /-- The length of the buffer right behind the opening brace. -/
  start : Nat
  deriving DecidableEq, Repr

/-- Opens an object. -/
def Buffer.beginObject (buffer : Buffer) : ObjectWriter :=
  let opened := buffer.writeByte Ascii.openBrace
  ⟨opened, opened.length⟩

namespace ObjectWriter

/-- Writes a field, whose value `encode` appends.  The key is written as it stands. -/
def always (writer : ObjectWriter) (key : String) (encode : Buffer → Buffer) : ObjectWriter :=
  let named := ((writer.buffer.writeByte Ascii.quote).writeText key).write
    [Ascii.quote, Ascii.colon]
  { writer with buffer := (encode named).writeByte Ascii.comma }

/-- Writes a field unless its value is empty. -/
def omitEmpty (writer : ObjectWriter) (key : String) (isEmpty : Bool)
    (encode : Buffer → Buffer) : ObjectWriter :=
  if isEmpty then writer else writer.always key encode

/-- Closes the object. -/
def finish (writer : ObjectWriter) : Buffer :=
  let fields :=
    if writer.start < writer.buffer.length then writer.buffer.rewind 1 else writer.buffer
  fields.writeByte Ascii.closeBrace

end ObjectWriter

end ChatCodec

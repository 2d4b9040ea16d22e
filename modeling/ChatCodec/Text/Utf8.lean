/-!
# UTF-8 over byte lists

Payloads and encoded documents are lists of bytes, and text inside them is
UTF-8.  This module reads and writes that encoding one byte at a time.

The reader is a machine.  Between characters it waits for a leading byte; inside
a character it knows how many continuation bytes are still owed, which range the
next of them must lie in, and the bits collected so far.  The range is narrower
than `80..BF` exactly after the four leading bytes whose full range would admit
an overlong form, a surrogate, or a code point past `10FFFF`, so a byte is
refused as soon as no continuation could make the sequence valid.

Two readings share the machine.  `decode` gives up at a refused byte, and
`decodeLossy` writes one replacement character for each longest refused piece
and goes on, looking at the refused byte again if a character had been begun.
-/

namespace ChatCodec

set_option autoImplicit false

/-- A payload, an encoded document, or a piece of either. -/
abbrev Bytes : Type := List UInt8

namespace Utf8

/-! ## The machine -/

/-- Where the reader stands. -/
inductive Place where
  /-- Between characters. -/
  | between
  /-- Inside a character: `owed + 1` continuation bytes are missing, the next one
  must lie in `low..high`, and `code` holds the bits read so far. -/
  | inside (owed : Nat) (low high : UInt8) (code : Nat)
  deriving DecidableEq, Repr

/-- What one byte does to the reader. -/
inductive Step where
  /-- The byte completes a character. -/
  | char (character : Char)
  /-- The byte belongs to a character that needs more bytes. -/
  | more (place : Place)
  /-- No valid text goes on with this byte. -/
  | refuse
  deriving DecidableEq, Repr

/-- The step of a leading byte. -/
def lead (byte : UInt8) : Step :=
  if byte < 0x80 then .char (Char.ofNat byte.toNat)
  else if byte < 0xC2 then .refuse
  else if byte < 0xE0 then .more (.inside 0 0x80 0xBF (byte.toNat - 0xC0))
  else if byte = 0xE0 then .more (.inside 1 0xA0 0xBF 0)
  else if byte = 0xED then .more (.inside 1 0x80 0x9F 0xD)
  else if byte < 0xF0 then .more (.inside 1 0x80 0xBF (byte.toNat - 0xE0))
  else if byte = 0xF0 then .more (.inside 2 0x90 0xBF 0)
  else if byte < 0xF4 then .more (.inside 2 0x80 0xBF (byte.toNat - 0xF0))
  else if byte = 0xF4 then .more (.inside 2 0x80 0x8F 4)
  else .refuse

/-- One step of the machine. -/
def step : Place → UInt8 → Step
  | .between, byte => lead byte
  | .inside owed low high code, byte =>
      if byte < low ∨ high < byte then .refuse
      else
        match owed with
        | 0 => .char (Char.ofNat (code * 64 + (byte.toNat - 0x80)))
        | owed + 1 => .more (.inside owed 0x80 0xBF (code * 64 + (byte.toNat - 0x80)))

/-! ## Reading -/

/-- Reading from a given place: the characters, if every byte is accepted and the
end falls between characters. -/
def decodeFrom : Place → Bytes → Option (List Char)
  | .between, [] => some []
  | .inside _ _ _ _, [] => none
  | place, byte :: rest =>
      match step place byte with
      | .char character => (decodeFrom .between rest).map (character :: ·)
      | .more next => decodeFrom next rest
      | .refuse => none

/-- The text that the bytes encode, if they are valid UTF-8. -/
def decode (bytes : Bytes) : Option String :=
  (decodeFrom .between bytes).map String.ofList

/-- Whether the bytes are valid UTF-8. -/
def IsValid (bytes : Bytes) : Prop :=
  ∃ characters, decodeFrom .between bytes = some characters

instance (bytes : Bytes) : Decidable (IsValid bytes) :=
  match h : decodeFrom .between bytes with
  | some characters => isTrue ⟨characters, h⟩
  | none => isFalse (fun ⟨characters, hc⟩ => by rw [h] at hc; cases hc)

/-- The character that stands for undecodable bytes. -/
def replacement : Char := Char.ofNat 0xFFFD

/-- Reading from a given place with one replacement character for each longest
piece that cannot be continued. -/
def decodeLossyFrom : Place → Bytes → List Char
  | .between, [] => []
  | .inside _ _ _ _, [] => [replacement]
  | .between, byte :: rest =>
      match step .between byte with
      | .char character => character :: decodeLossyFrom .between rest
      | .more next => decodeLossyFrom next rest
      | .refuse => replacement :: decodeLossyFrom .between rest
  | .inside owed low high code, byte :: rest =>
      match step (.inside owed low high code) byte with
      | .char character => character :: decodeLossyFrom .between rest
      | .more next => decodeLossyFrom next rest
      | .refuse =>
          replacement ::
            match step .between byte with
            | .char character => character :: decodeLossyFrom .between rest
            | .more next => decodeLossyFrom next rest
            | .refuse => replacement :: decodeLossyFrom .between rest

/-- The text of the bytes, with replacement characters where they are not valid
UTF-8. -/
def decodeLossy (bytes : Bytes) : String :=
  String.ofList (decodeLossyFrom .between bytes)

/-! ## Writing -/

/-- The bytes of a text. -/
def encode (text : String) : Bytes :=
  text.toList.flatMap String.utf8EncodeChar

@[simp] theorem encode_empty : encode "" = [] := rfl

theorem encode_append (first second : String) :
    encode (first ++ second) = encode first ++ encode second := by
  simp [encode]

end Utf8

/-- The bytes of a text. -/
abbrev bytesOf (text : String) : Bytes := Utf8.encode text

end ChatCodec

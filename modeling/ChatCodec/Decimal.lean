import ChatCodec.Text.Ascii

/-!
# Decimal integers

Integers travel as decimal digits.  This module writes them (`Decimal.ofNat`,
`Decimal.ofInt`) and reads them back under the bounds of a 64-bit word
(`readNatural?`, `readInteger?`).

Reading takes exactly the digits: no sign but a leading minus, no blanks, and at
least one digit.  A minus in front of zeros is zero also where only unsigned
values are wanted, and leading zeros are read, although neither is written.
-/

namespace ChatCodec

set_option autoImplicit false

namespace Decimal

/-! ## Writing -/

/-- The digit of a value below ten. -/
def digit (value : Nat) : UInt8 := UInt8.ofNat (0x30 + value)

/-- The digits of a number, most significant first, without leading zeros. -/
def ofNat (number : Nat) : Bytes :=
  if number < 10 then [digit number]
  else ofNat (number / 10) ++ [digit (number % 10)]
termination_by number

/-- The digits of an integer, behind a minus if it is negative. -/
def ofInt (number : Int) : Bytes :=
  if number < 0 then Ascii.minus :: ofNat number.natAbs else ofNat number.natAbs

/-! ## Reading -/

/-- The least value that does not fit a 64-bit word. -/
abbrev wordSize : Nat := 0x10000000000000000

/-- The magnitude of the least value of a signed 64-bit word. -/
abbrev signedLimit : Nat := 0x8000000000000000

/-- The value of further digits after a number, as long as it stays a 64-bit word. -/
def magnitudeFrom? : Nat → Bytes → Option Nat
  | number, [] => some number
  | number, byte :: rest =>
      if Ascii.isDigit byte then
        let next := number * 10 + (byte.toNat - 0x30)
        if next < wordSize then magnitudeFrom? next rest else none
      else none

/-- The value of one or more digits that fits a 64-bit word. -/
def magnitude? : Bytes → Option Nat
  | [] => none
  | byte :: rest => magnitudeFrom? 0 (byte :: rest)

/-- An unsigned 64-bit integer.  A negative zero is zero. -/
def readNatural? : Bytes → Option Nat
  | [] => none
  | byte :: rest =>
      if byte = Ascii.minus then (magnitude? rest).filter (· = 0)
      else magnitude? (byte :: rest)

/-- A signed 64-bit integer. -/
def readInteger? : Bytes → Option Int
  | [] => none
  | byte :: rest =>
      if byte = Ascii.minus then
        (magnitude? rest).bind fun number =>
          if number ≤ signedLimit then some (-(number : Int)) else none
      else
        (magnitude? (byte :: rest)).bind fun number =>
          if number < signedLimit then some (number : Int) else none

/-- Reading digits never yields more than a 64-bit word. -/
theorem magnitudeFrom?_lt (bytes : Bytes) :
    ∀ (start result : Nat), start < wordSize → magnitudeFrom? start bytes = some result →
      result < wordSize := by
  induction bytes with
  | nil => intro start result bound read; simp only [magnitudeFrom?, Option.some.injEq] at read; omega
  | cons byte rest ih =>
      intro start result bound read
      simp only [magnitudeFrom?] at read
      split at read
      · split at read
        · next fits => exact ih _ _ fits read
        · cases read
      · cases read

theorem magnitude?_lt {bytes : Bytes} {result : Nat} (read : magnitude? bytes = some result) :
    result < wordSize := by
  cases bytes with
  | nil => cases read
  | cons byte rest => exact magnitudeFrom?_lt _ 0 _ (by decide) read

theorem readNatural?_lt {bytes : Bytes} {result : Nat} (read : readNatural? bytes = some result) :
    result < wordSize := by
  cases bytes with
  | nil => cases read
  | cons byte rest =>
      simp only [readNatural?] at read
      split at read
      · exact magnitude?_lt (Option.filter_eq_some_iff.mp read).1
      · exact magnitude?_lt read

end Decimal

end ChatCodec

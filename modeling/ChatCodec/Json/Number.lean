import ChatCodec.Decimal
import ChatCodec.Decimal.Literal
import ChatCodec.Decimal.Shortest

/-!
# JSON numbers

A number of opaque JSON is an integer of at most 64 bits or a double.  A literal
without fraction and exponent that fits stays an integer; `-0`, longer integers and
everything with a fraction or an exponent become doubles.

**Reading a double** is quick and not always exact.  Digits go into a 64-bit
significand while they fit; after that, digits of the whole part only count towards
the exponent and digits of the fraction are dropped.  The significand is rounded
to a double once and multiplied or divided by a power of ten once (twice for the
smallest numbers).  A product beyond the largest double is refused.

**Printing a double** gives its shortest decimal: positional, with at least one
fraction digit, while the first digit stands for a power of ten from -5 to 15, and
with an exponent that always has a sign otherwise.
-/

namespace ChatCodec

set_option autoImplicit false

namespace Json

/-- The integers that a number can hold: those of a signed or an unsigned 64-bit
word. -/
abbrev IsWord (value : Int) : Prop := -0x8000000000000000 ≤ value ∧ value < 0x10000000000000000

/-- A number of opaque JSON. -/
inductive Number where
  | integer (value : Int) (fits : IsWord value)
  | double (bits : UInt64)
  deriving DecidableEq, Repr

namespace Number

/-! ## Reading -/

/-- A significand with the power of ten it is to be multiplied with. -/
structure Scaled where
  significand : Nat
  exponent : Int
  deriving DecidableEq, Repr

/-- The value of a digit. -/
abbrev digitValue (digit : UInt8) : Nat := digit.toNat - 0x30

/-- Takes in the digits of a whole part: after the first that does not fit, each one
only raises the exponent. -/
def Scaled.takeWhole : Scaled → Bytes → Scaled
  | scaled, [] => scaled
  | scaled, digit :: rest =>
      let next := scaled.significand * 10 + digitValue digit
      if scaled.exponent = 0 ∧ next < Decimal.wordSize then takeWhole ⟨next, 0⟩ rest
      else takeWhole ⟨scaled.significand, scaled.exponent + 1⟩ rest

/-- Takes in the digits of a fraction, up to the first that does not fit. -/
def Scaled.takeFraction : Scaled → Bytes → Scaled
  | scaled, [] => scaled
  | scaled, digit :: rest =>
      let next := scaled.significand * 10 + digitValue digit
      if next < Decimal.wordSize then takeFraction ⟨next, scaled.exponent - 1⟩ rest else scaled

/-- The largest exponent that is taken into account. -/
abbrev exponentLimit : Nat := 0x7FFFFFFF

/-- The value of the digits of an exponent, as long as it keeps within the limit. -/
def exponentFrom? : Nat → Bytes → Option Nat
  | exponent, [] => some exponent
  | exponent, digit :: rest =>
      let next := exponent * 10 + digitValue digit
      if next ≤ exponentLimit then exponentFrom? next rest else none

/-- A power of ten, as a double. -/
def powerOfTen (exponent : Nat) : Float := Float.ofScientific 1 false exponent

/-- Scales a double by a power of ten; none if the result is too large.  A double
below every power in reach is first brought nearer by `10 ^ 308`, `steps` times at
most. -/
def scale? : Nat → Float → Int → Option Float
  | steps, value, exponent =>
      if exponent.natAbs ≤ 308 then
        if 0 ≤ exponent then
          let product := value * powerOfTen exponent.natAbs
          if product.isInf then none else some product
        else some (value / powerOfTen exponent.natAbs)
      else if value == 0.0 then some value
      else if 0 ≤ exponent then none
      else
        match steps with
        | 0 => some 0.0
        | steps + 1 => scale? steps (value / powerOfTen 308) (exponent + 308)

/-- The bits of a double with a sign. -/
def signed (negative : Bool) (value : Float) : UInt64 :=
  if negative then (-value).toBits else value.toBits

/-- The double of a literal; none if it is too large. -/
def double? (literal : NumberLiteral) : Option UInt64 :=
  let whole := Scaled.takeWhole ⟨0, 0⟩ literal.whole
  let scaled := whole.takeFraction (literal.fraction.getD [])
  let finish (exponent : Int) : Option UInt64 :=
    (scale? 4 scaled.significand.toUInt64.toFloat exponent).map (signed literal.negative)
  match literal.exponent with
  | none => finish scaled.exponent
  | some (false, digits) =>
      match exponentFrom? 0 digits with
      | some exponent => finish (min (scaled.exponent + exponent) exponentLimit)
      | none => if scaled.significand = 0 then some (signed literal.negative 0.0) else none
  | some (true, digits) =>
      match exponentFrom? 0 digits with
      | some exponent => finish (max (scaled.exponent - exponent) (-exponentLimit - 1))
      | none => some (signed literal.negative 0.0)

/-- The integer of a literal without fraction and exponent, if it fits and is not a
negative zero. -/
def integer? (literal : NumberLiteral) : Option Number :=
  if literal.isInteger then
    match Decimal.magnitude? literal.whole with
    | none => none
    | some magnitude =>
        if literal.negative ∧ magnitude = 0 then none
        else
          let value : Int := if literal.negative then -(magnitude : Int) else magnitude
          if fits : IsWord value then some (.integer value fits) else none
  else none

/-- The number of a literal; none if it is too large for a double. -/
def ofLiteral? (literal : NumberLiteral) : Option Number :=
  match integer? literal with
  | some number => some number
  | none => (double? literal).map .double

/-! ## Printing -/

/-- `count` zeros. -/
def zeros (count : Nat) : List Char := List.replicate count '0'

/-- A decimal in positional notation with at least one fraction digit. -/
def positional (digits : List Char) (exponent : Int) : List Char :=
  let point : Int := digits.length + exponent
  if 0 ≤ exponent then digits ++ zeros exponent.toNat ++ ['.', '0']
  else if 0 < point then digits.take point.toNat ++ '.' :: digits.drop point.toNat
  else '0' :: '.' :: zeros (-point).toNat ++ digits

/-- A decimal with one digit before the point and a signed exponent. -/
def scientific (digits : List Char) (power : Int) : List Char :=
  let mantissa :=
    match digits with
    | first :: second :: rest => first :: '.' :: second :: rest
    | digits => digits
  mantissa ++ 'e' :: (if power < 0 then '-' else '+') :: Nat.toDigits 10 power.natAbs

/-- The text of a finite double. -/
def doubleText (bits : UInt64) : String :=
  let decimal := Shortest.ofBits bits
  let digits := Nat.toDigits 10 decimal.digits
  let power : Int := digits.length + decimal.exponent - 1
  let magnitude :=
    if -5 ≤ power ∧ power ≤ 15 then positional digits decimal.exponent
    else scientific digits power
  String.ofList (if Shortest.signBit ≤ bits.toNat then '-' :: magnitude else magnitude)

/-- The bytes of a number. -/
def print : Number → Bytes
  | integer value _ => Decimal.ofInt value
  | double bits => bytesOf (doubleText bits)

end Number

end Json

end ChatCodec

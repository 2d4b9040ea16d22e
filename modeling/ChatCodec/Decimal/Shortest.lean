/-!
# The fewest digits that read back

A double stands for every real number that rounds to it, an interval around its
exact value whose two ends belong to it when its significand is even.  Its shortest
decimal has the fewest significant digits of all decimals in the interval, and is
the one nearest to the exact value among those; an exact tie goes to the even
digit.

`Shortest.ofBits` finds it in exact arithmetic on natural numbers.  With one digit,
then two, and so on up to seventeen, it looks at the two neighbours of the value on
the decimal grid of that many digits, and the first grid with a neighbour in the
interval has the answer.
-/

namespace ChatCodec

set_option autoImplicit false

/-- The decimal `digits · 10 ^ exponent`. -/
structure ScaledDecimal where
  digits : Nat
  exponent : Int
  deriving DecidableEq, Repr

namespace Shortest

/-- A positive value with the ends of its interval, as numerators over one
denominator. -/
structure Interval where
  low : Nat
  value : Nat
  high : Nat
  denominator : Nat
  /-- Whether the two ends belong to the interval. -/
  closed : Bool
  deriving Repr

namespace Interval

/-- The interval of a significand and a binary exponent.  `narrow` says that the
next lower double is only half as far away as the next higher one. -/
def ofParts (significand : Nat) (exponent : Int) (narrow : Bool) : Interval :=
  let power := exponent - 2
  let factor := Nat.pow 2 power.toNat
  { low := (4 * significand - (if narrow then 1 else 2)) * factor
    value := 4 * significand * factor
    high := (4 * significand + 2) * factor
    denominator := Nat.pow 2 (-power).toNat
    closed := significand % 2 == 0 }

/-- The interval divided by a power of ten. -/
def shift (interval : Interval) (power : Int) : Interval :=
  let factor := Nat.pow 10 (-power).toNat
  { low := interval.low * factor
    value := interval.value * factor
    high := interval.high * factor
    denominator := interval.denominator * Nat.pow 10 power.toNat
    closed := interval.closed }

/-- Whether an integer lies in the interval. -/
def holds (interval : Interval) (candidate : Nat) : Bool :=
  let numerator := candidate * interval.denominator
  if interval.closed then interval.low ≤ numerator && numerator ≤ interval.high
  else interval.low < numerator && numerator < interval.high

/-- The integer next to the value that lies in the interval; of two, the nearer. -/
def neighbour? (interval : Interval) : Option Nat :=
  let below := interval.value / interval.denominator
  let above := below + 1
  let fromBelow := interval.value - below * interval.denominator
  let fromAbove := above * interval.denominator - interval.value
  match interval.holds below, interval.holds above with
  | true, true =>
      if fromBelow < fromAbove then some below
      else if fromAbove < fromBelow then some above
      else if below % 2 = 0 then some below
      else some above
  | true, false => some below
  | false, true => some above
  | false, false => none

/-- The power of ten of the value's first digit. -/
def leadingPower (interval : Interval) : Int :=
  let reaches (power : Int) : Bool :=
    interval.denominator * Nat.pow 10 power.toNat ≤ interval.value * Nat.pow 10 (-power).toNat
  let bits : Int := (interval.value.log2 : Int) - (interval.denominator.log2 : Int) - 1
  let guess := bits * 30103 / 100000
  if reaches (guess + 2) then guess + 2
  else if reaches (guess + 1) then guess + 1
  else if reaches guess then guess
  else guess - 1

end Interval

/-- Leaves out trailing zeros, at most `count` of them. -/
def trimZeros : Nat → ScaledDecimal → ScaledDecimal
  | 0, decimal => decimal
  | count + 1, decimal =>
      if decimal.digits % 10 = 0 then
        trimZeros count ⟨decimal.digits / 10, decimal.exponent + 1⟩
      else decimal

/-- The shortest decimal of an interval. -/
def ofInterval (interval : Interval) : ScaledDecimal :=
  let leading := interval.leadingPower
  let grid (count : Nat) : Option ScaledDecimal :=
    let power := leading - count
    (interval.shift power).neighbour?.map fun digits => ⟨digits, power⟩
  trimZeros 20 (((List.range 17).findSome? grid).getD ⟨0, 0⟩)

/-- The weight of the sign in the bits of a double. -/
abbrev signBit : Nat := 0x8000000000000000

/-- The weight of the last bit of the exponent, which is also that of the leading bit of
a significand that is not written. -/
abbrev hiddenBit : Nat := 0x10000000000000

/-- The shortest decimal of the magnitude of a finite double, given by its bits. -/
def ofBits (bits : UInt64) : ScaledDecimal :=
  let pattern : Nat := bits.toNat % signBit
  let field : Nat := pattern / hiddenBit
  let fraction : Nat := pattern % hiddenBit
  if pattern = 0 then ⟨0, 0⟩
  else if field = 0 then ofInterval (Interval.ofParts fraction (-1074) false)
  else
    ofInterval
      (Interval.ofParts (hiddenBit + fraction) ((field : Int) - 1075) (fraction == 0 && 1 < field))

end Shortest

end ChatCodec

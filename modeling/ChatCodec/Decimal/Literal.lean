import ChatCodec.Text.Ascii

/-!
# Number literals

A number literal is an optional minus, a whole part without leading zeros, an
optional fraction of one or more digits, and an optional exponent of one or more
digits with an optional sign.  `NumberLiteral.cut` takes the longest literal off
the front of a byte list, part by part; where a digit is wanted and none stands,
it returns what stands there instead.
-/

namespace ChatCodec

set_option autoImplicit false

/-- The parts of a number literal, each as its digits. -/
structure NumberLiteral where
  negative : Bool
  whole : Bytes
  fraction : Option Bytes
  /-- Whether the exponent is negative, and its digits. -/
  exponent : Option (Bool × Bytes)
  deriving DecidableEq, Repr

namespace NumberLiteral

/-- One or more digits, with the bytes behind them, or else the bytes that stand where
a digit is wanted. -/
def cutDigits (bytes : Bytes) : Except Bytes (Bytes × Bytes) :=
  match bytes with
  | [] => .error []
  | byte :: rest =>
      if Ascii.isDigit byte then
        .ok (byte :: rest.takeWhile Ascii.isDigit, rest.dropWhile Ascii.isDigit)
      else .error (byte :: rest)

/-- A whole part: one zero that no digit follows, or digits of which the first is
not zero. -/
def cutWhole (bytes : Bytes) : Except Bytes (Bytes × Bytes) :=
  match bytes with
  | [] => .error []
  | byte :: rest =>
      if byte = Ascii.zero then
        match rest with
        | [] => .ok ([byte], [])
        | next :: rest =>
            if Ascii.isDigit next then .error (next :: rest) else .ok ([byte], next :: rest)
      else cutDigits (byte :: rest)

/-- An optional fraction. -/
def cutFraction (bytes : Bytes) : Except Bytes (Option Bytes × Bytes) :=
  match bytes with
  | [] => .ok (none, [])
  | byte :: rest =>
      if byte = Ascii.dot then (cutDigits rest).map fun (digits, rest) => (some digits, rest)
      else .ok (none, byte :: rest)

/-- An optional sign: whether it is a minus. -/
def cutSign (bytes : Bytes) : Bool × Bytes :=
  match bytes with
  | [] => (false, [])
  | byte :: rest =>
      if byte = Ascii.minus then (true, rest)
      else if byte = Ascii.plus then (false, rest)
      else (false, byte :: rest)

/-- An optional exponent, behind either case of the letter `e`. -/
def cutExponent (bytes : Bytes) : Except Bytes (Option (Bool × Bytes) × Bytes) :=
  match bytes with
  | [] => .ok (none, [])
  | byte :: rest =>
      if byte = 0x65 ∨ byte = 0x45 then
        let (negative, rest) := cutSign rest
        (cutDigits rest).map fun (digits, rest) => (some (negative, digits), rest)
      else .ok (none, byte :: rest)

/-- An optional minus. -/
def cutMinus (bytes : Bytes) : Bool × Bytes :=
  match bytes with
  | [] => (false, [])
  | byte :: rest => if byte = Ascii.minus then (true, rest) else (false, byte :: rest)

/-- Takes the longest number literal off the front. -/
def cut (bytes : Bytes) : Except Bytes (NumberLiteral × Bytes) := do
  let (negative, rest) := cutMinus bytes
  let (whole, rest) ← cutWhole rest
  let (fraction, rest) ← cutFraction rest
  let (exponent, rest) ← cutExponent rest
  return (⟨negative, whole, fraction, exponent⟩, rest)

/-- The literal that the bytes are as a whole. -/
def ofBytes? (bytes : Bytes) : Option NumberLiteral :=
  match cut bytes with
  | .ok (literal, []) => some literal
  | _ => none

/-- A literal without fraction and exponent denotes an integer. -/
def isInteger (literal : NumberLiteral) : Bool :=
  literal.fraction.isNone && literal.exponent.isNone

end NumberLiteral

end ChatCodec

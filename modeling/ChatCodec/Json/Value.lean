import ChatCodec.Json.Number
import ChatCodec.Text.Escape

/-!
# Opaque JSON

The values that the codec carries without looking into them, and their compact
printed form.

An object is a list of members.  `Members.insert` keeps such a list sorted by key
and lets the last of two equal keys win; the reader builds its objects with it,
while a writer of documents lists members in the order it wants them printed.
-/

namespace ChatCodec

set_option autoImplicit false

namespace Json

mutual

/-- An opaque JSON value. -/
inductive Value where
  | null
  | bool (value : Bool)
  | number (value : Number)
  | text (value : String)
  | array (items : Items)
  | object (members : Members)
  deriving DecidableEq, Repr

/-- The items of an array. -/
inductive Items where
  | nil
  | cons (head : Value) (tail : Items)
  deriving DecidableEq, Repr

/-- The members of an object. -/
inductive Members where
  | nil
  | cons (key : String) (value : Value) (tail : Members)
  deriving DecidableEq, Repr

end

/-- The members with one more, in the order of the keys.  A member with the same key
is replaced. -/
def Members.insert (key : String) (value : Value) : Members → Members
  | .nil => .cons key value .nil
  | .cons other old tail =>
      if key = other then .cons key value tail
      else if key < other then .cons key value (.cons other old tail)
      else .cons other old (insert key value tail)

/-- Whether the value is `null`. -/
def Value.isNull : Value → Bool
  | .null => true
  | _ => false

/-! ## Printing -/

mutual

/-- The compact form of a value, followed by `rest`. -/
def Value.printBefore : Value → Bytes → Bytes
  | .null, rest => bytesOf "null" ++ rest
  | .bool value, rest => (if value then bytesOf "true" else bytesOf "false") ++ rest
  | .number value, rest => value.print ++ rest
  | .text value, rest => quoted value ++ rest
  | .array items, rest => Ascii.openBracket :: items.printBefore (Ascii.closeBracket :: rest)
  | .object members, rest => Ascii.openBrace :: members.printBefore (Ascii.closeBrace :: rest)

/-- The items, separated by commas, followed by `rest`. -/
def Items.printBefore : Items → Bytes → Bytes
  | .nil, rest => rest
  | .cons head .nil, rest => head.printBefore rest
  | .cons head (.cons next tail), rest =>
      head.printBefore (Ascii.comma :: (Items.cons next tail).printBefore rest)

/-- The members, separated by commas, followed by `rest`. -/
def Members.printBefore : Members → Bytes → Bytes
  | .nil, rest => rest
  | .cons key value .nil, rest => quoted key ++ Ascii.colon :: value.printBefore rest
  | .cons key value (.cons next other tail), rest =>
      quoted key ++ Ascii.colon ::
        value.printBefore (Ascii.comma :: (Members.cons next other tail).printBefore rest)

end

/-- The compact form of a value. -/
def Value.print (value : Value) : Bytes := value.printBefore []

end Json

end ChatCodec

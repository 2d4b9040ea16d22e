import ChatCodec.Schema.Catalog

/-!
# Declarative writing

The second encoder does not append to a buffer.  It turns a value into a JSON value,
whose members stand in the order of the fields, and leaves the text to the compact
printer.  Which fields it leaves out is said by a condition on the field, such as "if
absent" or "if false" (`Omission.applies`), and not by a notion of emptiness that all
shapes share.
-/

namespace ChatCodec

set_option autoImplicit false

/-- The integers of every type fit a number. -/
theorem Sized.isWord {width : Width} (sized : Sized width) : Json.IsWord sized.value := by
  have isIn := sized.isIn
  cases width <;> simp only [Width.low, Width.high] at isIn <;> constructor <;> omega

/-- A natural number of a 64-bit word as a JSON number. -/
def Json.Number.ofWord (word : UInt64) : Json.Number :=
  .integer word.toNat ⟨by have := Int.natCast_nonneg word.toNat; omega,
    by have := word.toNat_lt; omega⟩

/-- Text made of ASCII bytes. -/
def asciiText (bytes : Bytes) : String := String.ofList (bytes.map Char.ofUInt8)

/-- The JSON value of a scalar. -/
def Scalar.toJson : (kind : Scalar) → kind.Carrier → Json.Value
  | bool, value => .bool value
  | integer _, value => .number (.integer value.value value.isWord)
  | text, value => .text value
  | opaqueJson, value => value
  | id _, value => if value.isSet then .text value.text else .null
  | timestamp, value => .text (asciiText value.print)
  | flags, value => .number (.ofWord value.bits)
  | code kind, value => .number (.ofWord (kind.code value).toUInt64)

section

variable {Name : Type} {fields : Name → List (Field Name)}

/-- Whether the condition for leaving out a field holds of its value. -/
def Omission.applies : (omission : Omission) → {shape : Shape Name} → Val fields shape → Bool
  | .ifNone, _, .none => true
  | .ifFalse, _, @Val.scalar _ _ .bool value => !value
  | .ifZero, _, @Val.scalar _ _ (.integer _) value => value.value == 0
  | .ifEmptyText, _, @Val.scalar _ _ .text value => value == ""
  | .ifEmptyList, _, .list .nil => true
  | .ifUnset, _, @Val.scalar _ _ (.id _) value => value.value == 0
  | .ifNull, _, @Val.scalar _ _ .opaqueJson value => value.isNull
  | _, _, _ => false

mutual

/-- The JSON value of a value. -/
def Val.toJson : {shape : Shape Name} → Val fields shape → Json.Value
  | _, @Val.scalar _ _ kind value => kind.toJson value
  | _, .none => .null
  | _, .some value => value.toJson
  | _, .list items => .array items.toJson
  | _, .entity record => .object record.toJson

/-- The JSON values of the items of a sequence. -/
def Sequence.toJson : {inner : Shape Name} → Sequence fields inner → Json.Items
  | _, .nil => .nil
  | _, .cons head tail => .cons head.toJson tail.toJson

/-- The members of the fields of a record that are not left out. -/
def Record.toJson : {list : List (Field Name)} → Record fields list → Json.Members
  | _, .nil => .nil
  | field :: _, .cons head tail =>
      if field.omission.applies head then tail.toJson
      else .cons field.name head.toJson tail.toJson

end

/-- The JSON form of a value. -/
def Val.write {shape : Shape Name} (value : Val fields shape) : Bytes := value.toJson.print

end

end ChatCodec

import ChatCodec.Streaming.Buffer
import ChatCodec.Schema.Catalog

/-!
# Encoding

Encoding appends the JSON form of a value to a buffer.  The fields of an entity are
written in order, each according to its policy; a field that may be left out is left
out when its value is empty (`Val.isEmpty`).
-/

namespace ChatCodec

set_option autoImplicit false

namespace Scalar

/-- Appends a scalar. -/
def encode : (kind : Scalar) → kind.Carrier → Buffer → Buffer
  | bool, value, buffer => buffer.writeText (if value then "true" else "false")
  | integer _, value, buffer => buffer.writeInt value.value
  | text, value, buffer => buffer.writeQuoted value
  | opaqueJson, value, buffer => buffer.write value.print
  | id _, value, buffer =>
      if value.isSet then
        ((buffer.writeByte Ascii.quote).writeNat value.value.toNat).writeByte Ascii.quote
      else buffer.writeText "null"
  | timestamp, value, buffer =>
      ((buffer.writeByte Ascii.quote).write value.print).writeByte Ascii.quote
  | flags, value, buffer => buffer.writeNat value.bits.toNat
  | code kind, value, buffer => buffer.writeNat (kind.code value).toNat

/-- Whether a scalar is the zero or empty value of its kind.  A timestamp never is. -/
def isEmpty : (kind : Scalar) → kind.Carrier → Bool
  | bool, value => !value
  | integer _, value => value.value == 0
  | text, value => value.isEmpty
  | opaqueJson, value => value.isNull
  | id _, value => !value.isSet
  | timestamp, _ => false
  | flags, value => value.bits == 0
  | code kind, value => kind.code value == 0

end Scalar

section

variable {Name : Type} {fields : Name → List (Field Name)}

/-- Whether a value is the zero or empty value of its shape.  An entity never is. -/
def Val.isEmpty : {shape : Shape Name} → Val fields shape → Bool
  | _, @Val.scalar _ _ kind value => kind.isEmpty value
  | _, .none => true
  | _, .some _ => false
  | _, .list items => items.isEmpty
  | _, .entity _ => false

mutual

/-- Appends a value. -/
def Val.encode : {shape : Shape Name} → Val fields shape → Buffer → Buffer
  | _, @Val.scalar _ _ kind value, buffer => kind.encode value buffer
  | _, .none, buffer => buffer.writeText "null"
  | _, .some value, buffer => value.encode buffer
  | _, .list items, buffer =>
      (items.encodeItems true (buffer.writeByte Ascii.openBracket)).writeByte Ascii.closeBracket
  | _, .entity record, buffer => (record.encodeFields buffer.beginObject).finish

/-- Appends the items of a sequence, each but the first behind a comma. -/
def Sequence.encodeItems : {inner : Shape Name} → Sequence fields inner → Bool → Buffer → Buffer
  | _, .nil, _, buffer => buffer
  | _, .cons head tail, isFirst, buffer =>
      tail.encodeItems false
        (head.encode (if isFirst then buffer else buffer.writeByte Ascii.comma))

/-- Writes the fields of a record. -/
def Record.encodeFields : {list : List (Field Name)} → Record fields list → ObjectWriter →
    ObjectWriter
  | _, .nil, writer => writer
  | field :: _, .cons head tail, writer =>
      tail.encodeFields
        (match field.policy with
        | .always => writer.always field.key head.encode
        | .omitEmpty => writer.omitEmpty field.key head.isEmpty head.encode)

end

/-- The JSON form of a value. -/
def Val.toBytes {shape : Shape Name} (value : Val fields shape) : Bytes :=
  (value.encode .empty).bytes

end

end ChatCodec
